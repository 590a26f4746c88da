import PageScript.Proofs.Token.Segments

/-!
# The scanner accounts for every character

Every text is made of segments, whether or not it can be cut to its end. What stands behind the last
segment is a gap, or it starts, behind a gap, with the character that ends the scanning.

* `exists_run` — a text is a run of characters of one kind and what stands behind it;
* `Unfit` — a character that is no gap and that no token starts with;
* `cut_cases` — in front of a character that is no gap, a token is cut off, or the scanning ends;
* `Ending` — what stands behind the last segment, and the failure that there is for it;
* `scan_decomposes` — the tokens and the failure of a text are those of its segments and its ending.
-/

namespace PageScript

variable (file : Option String)

/-- A text is the longest run of characters of one kind that it starts with, and the rest. -/
theorem exists_run (p : Char → Bool) (cs : List Char) :
    ∃ run rest, cs = run ++ rest ∧ (∀ c ∈ run, p c) ∧ ∀ c ∈ rest.head?, p c = false := by
  induction cs with
  | nil => exact ⟨[], [], rfl, by simp, by simp⟩
  | cons c cs ih =>
    cases hc : p c with
    | false => exact ⟨[], c :: cs, rfl, by simp, by simpa using hc⟩
    | true =>
      obtain ⟨run, rest, rfl, hrun, hrest⟩ := ih
      exact ⟨c :: run, rest, rfl, List.forall_mem_cons.2 ⟨hc, hrun⟩, hrest⟩

/-! ### One cut -/

/-- A character that is no gap and that no token starts with. -/
structure Unfit (c : Char) : Prop where
  gap : isGap c = false
  digit : isDigit c = false
  name : isNameStart c = false
  quote : c ≠ '"' ∧ c ≠ '\''
  punctuator : c ∉ punctuators

theorem scanFrom_unfit (line : Nat) {c : Char} (h : Unfit c) (rest : List Char) :
    scanFrom file line 0 (c :: rest) =
      .failed (.lexical (.unexpectedCharacter (String.singleton c)) (some line) file) := by
  obtain ⟨hgap, hdigit, hname, hquote, hmark⟩ := h
  have hplain : c ≠ '\n' ∧ isSpace c = false := by simpa [isGap] using hgap
  simp [scanFrom, hplain, hdigit, hname, hquote, hmark]

/-- A quote that is not closed in front of the end of its line. -/
theorem scanFrom_unclosed (line : Nat) {mark : Char} (hmark : mark = '"' ∨ mark = '\'')
    {inside rest : List Char} (hinside : ∀ c ∈ inside, isInside mark c)
    (hrest : ∀ c ∈ rest.head?, c = '\n') :
    scanFrom file line 0 (mark :: (inside ++ rest)) =
      .failed (.lexical .unterminatedString (some line) file) := by
  have hrun : (inside ++ rest).takeWhile (isInside mark) = inside :=
    takeWhile_run hinside fun c hc => by simp [isInside, hrest c hc]
  have hplain : mark ≠ '\n' ∧ isSpace mark = false ∧ isDigit mark = false := by
    rcases hmark with rfl | rfl <;> decide
  have hopen : (inside ++ rest)[inside.length]? ≠ some mark := by
    rw [List.getElem?_append_right (Nat.le_refl _), Nat.sub_self, ← List.head?_eq_getElem?]
    intro hhead
    exact hplain.1 (hrest mark hhead)
  simp only [scanFrom, if_neg hplain.1, hplain.2.1, hplain.2.2, if_pos hmark, hrun, if_neg hopen,
    Bool.false_eq_true, if_false]

/-- What stands between a quote and the end of its line, if the quote is not closed. -/
theorem not_mem_line {mark : Char} {inside rest : List Char}
    (hinside : ∀ c ∈ inside, isInside mark c) (hrest : ∀ c ∈ rest.head?, c = '\n') :
    mark ∉ (inside ++ rest).takeWhile (· ≠ '\n') := by
  have hline : (inside ++ rest).takeWhile (· ≠ '\n') = inside :=
    takeWhile_run (fun c hc => decide_eq_true (isInside_iff.1 (hinside c hc)).2)
      fun c hc => by simp [hrest c hc]
  rw [hline]
  exact fun hmem => (isInside_iff.1 (hinside mark hmem)).1 rfl

/-- **One cut.** In front of a character that is no gap, a spelled lexeme is cut off that does not go
on behind its spelling, or no token starts there, or a quote is opened and not closed. -/
theorem cut_cases (line : Nat) {c : Char} (hgap : isGap c = false) (rest : List Char) :
    (∃ lexeme spelled behind, c :: rest = spelled ++ behind ∧ Spelling lexeme spelled ∧
      ∀ d ∈ behind.head?, lexeme.absorbs d = false) ∨
    (Unfit c ∧ scanFrom file line 0 (c :: rest) =
      .failed (.lexical (.unexpectedCharacter (String.singleton c)) (some line) file)) ∨
    ((c = '"' ∨ c = '\'') ∧ c ∉ rest.takeWhile (· ≠ '\n') ∧
      scanFrom file line 0 (c :: rest) =
        .failed (.lexical .unterminatedString (some line) file)) := by
  by_cases hquote : c = '"' ∨ c = '\''
  · obtain ⟨inside, behind, rfl, hinside, hbehind⟩ := exists_run (isInside c) rest
    by_cases hclosed : behind.head? = some c
    · obtain ⟨behind, rfl⟩ := List.head?_eq_some_iff.1 hclosed
      exact .inl ⟨_, c :: (inside ++ [c]), behind, by simp, .string hquote hinside,
        fun _ _ => rfl⟩
    · have hline : ∀ d ∈ behind.head?, d = '\n' := by
        intro d hd
        have hother : d ≠ c := fun heq => hclosed (heq ▸ hd)
        simpa [isInside, hother] using hbehind d hd
      exact .inr (.inr ⟨hquote, not_mem_line hinside hline,
        scanFrom_unclosed file line hquote hinside hline⟩)
  cases hdigit : isDigit c with
  | true =>
    obtain ⟨digits, behind, rfl, hdigits, hbehind⟩ := exists_run isDigit rest
    exact .inl ⟨_, c :: digits, behind, rfl, .number hdigit hdigits, hbehind⟩
  | false =>
    cases hname : isNameStart c with
    | true =>
      obtain ⟨more, behind, rfl, hmore, hbehind⟩ := exists_run isNamePart rest
      refine .inl ⟨_, c :: more, behind, rfl, .name hname hmore, fun d hd => ?_⟩
      unfold lexemeOfName
      split <;> exact hbehind d hd
    | false =>
      by_cases hmark : c ∈ punctuators
      · exact .inl ⟨_, [c], rest, rfl, .punctuator hmark, fun _ _ => rfl⟩
      · have hunfit : Unfit c := ⟨hgap, hdigit, hname, not_or.1 hquote, hmark⟩
        exact .inr (.inl ⟨hunfit, scanFrom_unfit file line hunfit rest⟩)

/-! ### All cuts -/

/-- What stands behind the last segment of a text, `before` being all that stands in front of it, and
the failure that there is for it: gaps alone are the end of a text that has been cut to its end. -/
inductive Ending (before : List Char) : List Char → Option Failure → Prop
  | finished {rest : List Char} : (∀ c ∈ rest, isGap c) → Ending before rest none
  | unexpected {gap behind : List Char} {c : Char} : (∀ d ∈ gap, isGap d) → Unfit c →
      Ending before (gap ++ c :: behind) (some (.lexical
        (.unexpectedCharacter (String.singleton c))
        (some ((before ++ gap).count '\n' + 1 : Nat)) file))
  | unterminated {gap behind : List Char} {mark : Char} : (∀ d ∈ gap, isGap d) →
      mark = '"' ∨ mark = '\'' → mark ∉ behind.takeWhile (· ≠ '\n') →
      Ending before (gap ++ mark :: behind) (some (.lexical
        .unterminatedString (some ((before ++ gap).count '\n' + 1 : Nat)) file))

theorem scanFrom_gaps (line : Nat) {gaps : List Char} (h : ∀ c ∈ gaps, isGap c)
    (rest : List Char) :
    scanFrom file line 0 (gaps ++ rest) = scanFrom file (line + gaps.count '\n') 0 rest :=
  (typeset_gaps line h).scanFrom_append file rest (by simp)

/-- **All cuts.** Behind any text, a text is cut into the tokens of its segments, and it ends as what
stands behind them says. -/
theorem scanFrom_decomposes (before cs : List Char) :
    ∃ (segments : List Segment) (rest : List Char), cs = Segment.written segments ++ rest ∧
      (scanFrom file (before.count '\n' + 1) 0 cs).tokens = Segment.tokens before segments ∧
      Segment.Separate segments rest ∧
      Ending file (before ++ Segment.written segments) rest
        (scanFrom file (before.count '\n' + 1) 0 cs).failure := by
  -- a segment takes at least one character, so what is left to cut becomes shorter
  induction hlength : cs.length using Nat.strongRecOn generalizing before cs with
  | ind n ih =>
    obtain ⟨gap, rest, rfl, hgap, hrest⟩ := exists_run isGap cs
    have hnone : Segment.Separate [] (gap ++ rest) := fun front segment behind heq =>
      absurd heq (by simp)
    have hbefore : before ++ Segment.written [] = before := List.append_nil before
    have hline : before.count '\n' + 1 + gap.count '\n' = (before ++ gap).count '\n' + 1 := by
      rw [List.count_append]
      omega
    rw [scanFrom_gaps file _ hgap, hline]
    cases rest with
    | nil =>
      rw [List.append_nil] at hnone ⊢
      exact ⟨[], gap, rfl, rfl, hnone, .finished hgap⟩
    | cons c rest =>
      rcases cut_cases file ((before ++ gap).count '\n' + 1) (hrest c rfl) rest with
        ⟨lexeme, spelled, behind, htext, hspelling, hbehind⟩ | ⟨hunfit, hscan⟩ |
          ⟨hquote, hopen, hscan⟩
      · let segment : Segment := ⟨gap, lexeme, spelled, hgap, hspelling.spelledAs⟩
        have hshorter : behind.length < n := by
          have hpos := List.length_pos_iff.2 hspelling.ne_nil
          rw [← hlength, htext]
          simp only [List.length_append]
          omega
        obtain ⟨segments, last, hcs, htokens, hseparate, hending⟩ :=
          ih _ hshorter (before ++ segment.chars) behind rfl
        have hcut := scanFrom_spelling file ((before ++ gap).count '\n' + 1) hspelling hbehind
        have hcount : (before ++ segment.chars).count '\n' = (before ++ gap).count '\n' :=
          segment.count_chars before
        rw [hcount] at htokens hending
        rw [htext, hcut]
        have hall : Segment.Separate (segment :: segments) last :=
          Segment.separate_cons.2 ⟨hcs ▸ hbehind, hseparate⟩
        refine ⟨segment :: segments, last, ?_, ?_, hall, ?_⟩
        · rw [Segment.written_cons, hcs]
          simp only [segment, List.append_assoc]
        · exact congrArg _ htokens
        · rw [List.append_assoc] at hending
          exact hending
      · rw [hscan]
        refine ⟨[], gap ++ c :: rest, rfl, rfl, hnone, ?_⟩
        rw [hbefore]
        exact .unexpected hgap hunfit
      · rw [hscan]
        refine ⟨[], gap ++ c :: rest, rfl, rfl, hnone, ?_⟩
        rw [hbefore]
        exact .unterminated hgap hquote hopen

/-- **The scanner accounts for every character.** A text is made of segments, each of them a gap and
a lexeme as it is spelled, none of which would go on with the character behind it. Its tokens are
just those of the segments, each on the line that it starts on. Behind the last segment there are
only gaps if the text is cut to its end; else, behind a gap, stands the character that the failure
names, or the quote that it is about, and the line of the failure is the line of that character. -/
theorem scan_decomposes (source : String) :
    ∃ (segments : List Segment) (rest : List Char),
      source.toList = Segment.written segments ++ rest ∧
      (scan source file).tokens = Segment.tokens [] segments ∧ Segment.Separate segments rest ∧
      Ending file (Segment.written segments) rest (scan source file).failure :=
  scanFrom_decomposes file [] source.toList

end PageScript
