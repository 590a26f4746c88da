import PageScript.Proofs.Token.Cutting

/-!
# Text further down

No token crosses the end of a line, and the line that a token stands on has no say in what it is. So
a text below another is cut as if it stood alone, some lines further down, provided that the text
above can be cut to its end.

* `Token.shift`, `Failure.shift`, `Scan.shift` — tokens that stand some lines further down, and the
  failures that name them;
* `scanFrom_shift` — cutting a text that stands further down;
* `scan_below` — cutting a text below another;
* `scan_lines` — what that means for the tokens and the failures of the two.
-/

namespace PageScript

/-- A token that stands some lines further down. -/
def Token.shift (lines : Int) (token : Token) : Token :=
  { token with line := token.line + lines }

/-- A cause whose token stands further down. -/
def StructuralCause.shift (lines : Int) : StructuralCause → StructuralCause
  | .expected mark found => .expected mark (found.map (.shift lines))
  | .nesting limit found => .nesting limit (found.map (.shift lines))

/-- A failure of a text that stands further down. -/
def Failure.shift (lines : Int) : Failure → Failure
  | .lexical cause line file => .lexical cause (line.map (· + lines)) file
  | .structural cause file => .structural (cause.shift lines) file
  | failure => failure

/-- The tokens of a text that stands further down. -/
def Scan.shift (lines : Int) (scan : Scan) : Scan :=
  ⟨scan.tokens.map (.shift lines), scan.failure.map (.shift lines)⟩

theorem Scan.shift_push (lines : Int) (token : Token) (scan : Scan) :
    (Scan.push token scan).shift lines = .push (token.shift lines) (scan.shift lines) := rfl

theorem Token.shift_mk (lines line : Nat) (lexeme : Lexeme) :
    Token.shift lines ⟨lexeme, line⟩ = ⟨lexeme, ((line + lines : Nat) : Int)⟩ := rfl

/-- A text is cut in the same places wherever it stands. -/
theorem scanFrom_shift (file : Option String) (lines line covered : Nat) (cs : List Char) :
    scanFrom file (line + lines) covered cs = (scanFrom file line covered cs).shift lines := by
  induction cs generalizing line covered with
  | nil => cases covered <;> rfl
  | cons c rest ih =>
    cases covered with
    | succ covered => exact ih line covered
    | zero =>
      unfold scanFrom
      split
      · rw [← ih, Nat.add_right_comm]
      split
      · exact ih line 0
      split
      · simp only [ih, Scan.shift_push, Token.shift_mk]
      split
      · dsimp only
        split
        · simp only [ih, Scan.shift_push, Token.shift_mk]
        · rfl
      split
      · simp only [ih, Scan.shift_push, Token.shift_mk]
      split
      · simp only [ih, Scan.shift_push, Token.shift_mk]
      · rfl

/-- **A text below another** is cut as if it stood alone. -/
theorem scan_below (source text : String) (file : Option String) :
    scan (source ++ "\n" ++ text) file =
      (scan source file).append
        ((scan text file).shift (source.toList.count '\n' + 1 : Nat)) := by
  have hlist : (source ++ "\n" ++ text).toList = source.toList ++ '\n' :: text.toList := by
    simp [String.toList_append]
  unfold scan
  rw [hlist, scanFrom_break file 1 0 _ _ (Nat.zero_le _), List.drop_zero, Nat.add_assoc,
    scanFrom_shift file (source.toList.count '\n' + 1) 1]

/-- **Cutting goes line by line.** If a text can be cut to its end, then the tokens of any other text
below it come right behind its own, and fail where that text fails alone, each as many lines further
down as the text above takes up. If it cannot, then what stands below it makes no difference: the
same tokens are followed by the same failure. -/
theorem scan_lines (above below : String) (file : Option String) :
    ((scan above file).failure = none →
      (scan (above ++ "\n" ++ below) file).tokens =
        (scan above file).tokens ++
          (scan below file).tokens.map (.shift (1 + above.toList.count '\n')) ∧
      (scan (above ++ "\n" ++ below) file).failure =
        (scan below file).failure.map (.shift (1 + above.toList.count '\n'))) ∧
    (∀ failure, (scan above file).failure = some failure →
      (scan (above ++ "\n" ++ below) file).tokens = (scan above file).tokens ∧
      (scan (above ++ "\n" ++ below) file).failure = some failure) := by
  have hlines : ((above.toList.count '\n' + 1 : Nat) : Int) = 1 + above.toList.count '\n' := by
    omega
  rw [scan_below, hlines]
  refine ⟨fun hends => ?_, fun failure hfails => ?_⟩
  · rw [Scan.append_of_none hends]
    exact ⟨rfl, rfl⟩
  · rw [Scan.append_of_failure hfails]
    exact ⟨rfl, hfails⟩

/-- A quote is looked for on its own line only: neither is one of the line above closed below, nor
does it swallow what stands there. -/
theorem scan_lines_quotes :
    (scan ("say(\"it's\")" ++ "\n" ++ "') say(\"s\")") none).failure =
      some (.lexical .unterminatedString (some 2) none) ∧
    (scan ("a '\n" ++ "\n" ++ "'") none).tokens = [⟨.identifier "a", 1⟩] := by
  have hends : (scan "say(\"it's\")" none).failure = none := by cbv
  have hfails : (scan "a '\n" none).failure =
      some (.lexical .unterminatedString (some 1) none) := by cbv
  have hbelow : (scan "') say(\"s\")" none).failure =
      some (.lexical .unterminatedString (some 1) none) := by cbv
  have habove : (scan "a '\n" none).tokens = [⟨.identifier "a", 1⟩] := by cbv
  refine ⟨?_, ?_⟩
  · rw [((scan_lines _ _ none).1 hends).2, hbelow]
    rfl
  · rw [((scan_lines _ _ none).2 _ hfails).1, habove]

end PageScript
