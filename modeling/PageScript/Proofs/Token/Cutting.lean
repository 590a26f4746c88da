import PageScript.Proofs.Token.Typeset

/-!
# What a text is cut into

The tokens of a script are not just any tokens, and no token crosses the end of a line.

* `Token.IsPlain` — a keyword is one of the language's;
* `forall_scanFrom` — what holds of all tokens of a text;
* `scanFrom_plain`, `scanFrom_failure` — the tokens of a text are plain, and what ends them is lexical;
* `Scan.append` — a stream and the one behind it, which is only reached if the first ends well;
* `scanFrom_break` — a text is cut line by line: what stands behind the end of a line has no say in
  what is cut before it.
-/

namespace PageScript

/-- A token that a script can contain, so far as its keyword goes. -/
def Token.IsPlain (token : Token) : Prop :=
  ∀ word, token.lexeme = .keyword word → word ∈ keywords

/-- A stream and the one behind it. A stream that fails is never left. -/
def Scan.append (first second : Scan) : Scan :=
  match first.failure with
  | none => second.prepend first.tokens
  | some _ => first

theorem Scan.append_push (token : Token) (first second : Scan) :
    (Scan.push token first).append second = .push token (first.append second) := by
  unfold Scan.append
  obtain ⟨tokens, failure⟩ := first
  cases failure <;> rfl

theorem Scan.append_of_failure {first : Scan} {failure : Failure} (h : first.failure = some failure)
    (second : Scan) : first.append second = first := by
  simp only [Scan.append, h]

theorem Scan.append_of_none {first : Scan} (h : first.failure = none) (second : Scan) :
    first.append second = second.prepend first.tokens := by
  simp only [Scan.append, h]

/-! ### The tokens -/

theorem lexemeOfName_plain (name : String) (line : Int) : Token.IsPlain ⟨lexemeOfName name, line⟩ := by
  intro word hword
  unfold lexemeOfName at hword
  split at hword
  · next hkeyword =>
    obtain rfl : name = word := by simpa using hword
    exact List.contains_iff_mem.1 hkeyword
  · exact absurd hword (by simp)

/-- A stream with one more token in front has no tokens of another sort, if that token is not. -/
theorem forall_push {p : Token → Prop} {token : Token} {scan : Scan} (htoken : p token)
    (h : ∀ t ∈ scan.tokens, p t) : ∀ t ∈ (Scan.push token scan).tokens, p t := by
  intro t ht
  rcases List.mem_cons.1 ht with rfl | ht
  · exact htoken
  · exact h t ht

/-- **What holds of the four sorts of token** that are cut off a text holds of all its tokens. -/
theorem forall_scanFrom {p : Token → Prop}
    (hnumber : ∀ digits (line : Nat), p ⟨.number (wordOfDigits digits), line⟩)
    (hstring : ∀ text (line : Nat), p ⟨.string text, line⟩)
    (hname : ∀ name (line : Nat), p ⟨lexemeOfName name, line⟩)
    (hmark : ∀ mark (line : Nat), p ⟨.punctuator mark, line⟩)
    (file : Option String) (line covered : Nat) (cs : List Char) :
    ∀ token ∈ (scanFrom file line covered cs).tokens, p token := by
  have hnone : ∀ token ∈ ([] : List Token), p token := by simp
  -- the induction is on the characters, whether or not a token covers them
  induction cs generalizing line covered with
  | nil => cases covered <;> exact hnone
  | cons c rest ih =>
    cases covered with
    | succ covered => exact ih line covered
    | zero =>
      unfold scanFrom
      split
      · exact ih _ _
      split
      · exact ih _ _
      split
      · exact forall_push (hnumber _ _) (ih _ _)
      split
      · dsimp only
        split
        · exact forall_push (hstring _ _) (ih _ _)
        · exact hnone
      split
      · exact forall_push (hname _ _) (ih _ _)
      split
      · exact forall_push (hmark _ _) (ih _ _)
      · exact hnone

/-- **The tokens of a text are plain**: it has no keywords but those of the language. -/
theorem scanFrom_plain (file : Option String) (line covered : Nat) (cs : List Char) :
    ∀ token ∈ (scanFrom file line covered cs).tokens, token.IsPlain :=
  have hother : ∀ (lexeme : Lexeme) (line : Int), (∀ word, lexeme ≠ .keyword word) →
      Token.IsPlain ⟨lexeme, line⟩ := fun _ _ h word hword => absurd hword (h word)
  forall_scanFrom (fun _ _ => hother _ _ (by simp)) (fun _ _ => hother _ _ (by simp))
    (fun name _ => lexemeOfName_plain name _) (fun _ _ => hother _ _ (by simp)) file line covered cs

/-- **What ends the tokens of a text is lexical.** -/
theorem scanFrom_failure (file : Option String) (line covered : Nat) (cs : List Char) :
    ∀ failure ∈ (scanFrom file line covered cs).failure, failure.stage = some .lexical := by
  have hlexical : ∀ cause line, ∀ failure ∈ some (Failure.lexical cause line file),
      failure.stage = some .lexical := by
    rintro cause line failure ⟨⟩
    rfl
  induction cs generalizing line covered with
  | nil => cases covered <;> simp [scanFrom, Scan.finished]
  | cons c rest ih =>
    cases covered with
    | succ covered => exact ih line covered
    | zero =>
      unfold scanFrom
      split
      · exact ih _ _
      split
      · exact ih _ _
      split
      · exact ih _ _
      split
      · dsimp only
        split
        · exact ih _ _
        · exact hlexical _ _
      split
      · exact ih _ _
      split
      · exact ih _ _
      · exact hlexical _ _

/-! ### Line by line -/

/-- A run of characters that stops at the end of a line at the latest does not see what follows. -/
theorem takeWhile_break {p : Char → Bool} (hp : p '\n' = false) (cs rest : List Char) :
    (cs ++ '\n' :: rest).takeWhile p = cs.takeWhile p := by
  induction cs with
  | nil => simp [hp]
  | cons c cs ih =>
    cases hc : p c with
    | true => simp [hc, ih]
    | false => simp [hc]

/-- No end of a line is lost behind such a run. -/
theorem count_newline_drop {p : Char → Bool} (hp : p '\n' = false) (cs : List Char) :
    (cs.drop (cs.takeWhile p).length).count '\n' = cs.count '\n' := by
  induction cs with
  | nil => rfl
  | cons c cs ih =>
    cases hc : p c with
    | true => simpa [hc, List.count_cons_of_ne (ne_of_class hc hp)] using ih
    | false => simp [hc]

theorem length_takeWhile_le (p : Char → Bool) (cs : List Char) :
    (cs.takeWhile p).length ≤ cs.length :=
  (List.takeWhile_prefix p).length_le

/-- Whether a quote is closed is seen before the end of the line. -/
theorem getElem?_break {c : Char} (hc : c ≠ '\n') (cs rest : List Char) {n : Nat}
    (hn : n ≤ cs.length) : (cs ++ '\n' :: rest)[n]? = some c ↔ cs[n]? = some c := by
  rcases Nat.lt_or_eq_of_le hn with hlt | rfl
  · rw [List.getElem?_append_left hlt]
  · simp [hc.symm]

/-- **A text is cut line by line.** What is cut off before the end of a line does not depend on what
stands behind it, which is cut as a text of its own, further down. -/
theorem scanFrom_break (file : Option String) (line covered : Nat) (cs rest : List Char)
    (h : covered ≤ cs.length) :
    scanFrom file line covered (cs ++ '\n' :: rest) =
      (scanFrom file line covered cs).append
        (scanFrom file (line + (cs.drop covered).count '\n' + 1) 0 rest) := by
  -- the induction is on the characters, whether or not a token covers them
  induction cs generalizing line covered with
  | nil =>
    obtain rfl : covered = 0 := by simpa using h
    rfl
  | cons c cs ih =>
    cases covered with
    | succ covered => exact ih line covered (by simpa using h)
    | zero =>
      rw [List.drop_zero, List.cons_append]
      by_cases hnewline : c = '\n'
      · subst hnewline
        have hrest := ih (line + 1) 0 (Nat.zero_le _)
        rw [List.drop_zero, Nat.add_right_comm line 1] at hrest
        simpa only [scanFrom, if_true, List.count_cons_self, ← Nat.add_assoc] using hrest
      · rw [List.count_cons_of_ne hnewline]
        have hzero := ih line 0 (Nat.zero_le _)
        rw [List.drop_zero] at hzero
        have hrun : ∀ p : Char → Bool, p '\n' = false →
            scanFrom file line (cs.takeWhile p).length (cs ++ '\n' :: rest) =
              (scanFrom file line (cs.takeWhile p).length cs).append
                (scanFrom file (line + cs.count '\n' + 1) 0 rest) := by
          intro p hp
          have hmore := ih line (cs.takeWhile p).length (length_takeWhile_le p cs)
          rwa [count_newline_drop hp] at hmore
        have hquoted : ∀ p : Char → Bool, p '\n' = false →
            cs[(cs.takeWhile p).length]? = some c →
            scanFrom file line ((cs.takeWhile p).length + 1) (cs ++ '\n' :: rest) =
              (scanFrom file line ((cs.takeWhile p).length + 1) cs).append
                (scanFrom file (line + cs.count '\n' + 1) 0 rest) := by
          intro p hp hclosed
          obtain ⟨hlt, hc⟩ := List.getElem?_eq_some_iff.1 hclosed
          have hmore := ih line ((cs.takeWhile p).length + 1) hlt
          have hcount := count_newline_drop hp cs
          rw [List.drop_eq_getElem_cons hlt, hc, List.count_cons_of_ne hnewline] at hcount
          rwa [hcount] at hmore
        generalize scanFrom file (line + cs.count '\n' + 1) 0 rest = further at hzero hrun hquoted ⊢
        unfold scanFrom
        rw [if_neg hnewline, if_neg hnewline]
        split
        · exact hzero
        split
        · dsimp only
          rw [takeWhile_break (by decide), hrun isDigit (by decide), Scan.append_push]
        split
        · have hinside : isInside c '\n' = false := by simp [isInside]
          have hquote := getElem?_break hnewline cs rest (length_takeWhile_le (isInside c) cs)
          dsimp only
          rw [takeWhile_break hinside]
          by_cases hclosed : cs[(cs.takeWhile (isInside c)).length]? = some c
          · rw [if_pos (hquote.2 hclosed), if_pos hclosed, hquoted _ hinside hclosed,
              Scan.append_push]
          · rw [if_neg (mt hquote.1 hclosed), if_neg hclosed]
            rfl
        split
        · dsimp only
          rw [takeWhile_break (by decide), hrun isNamePart (by decide), Scan.append_push]
        split
        · rw [hzero, Scan.append_push]
        · rfl

end PageScript
