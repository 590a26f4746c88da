import PageScript.Proofs.Evaluation.Numbers
import PageScript.Proofs.Grammar.Yields
import PageScript.Proofs.Source.Printing

/-!
# The numbers of a script

All numbers that a script contains are script numbers: its text is cut into tokens of such numbers,
and a production puts no number into a tree but those of its tokens.

* `Token.Only` — a token that is no other number;
* `scanFrom_only` — the tokens of a text are script numbers, so far as they are numbers;
* `Harvest.only` — no production brings in a number;
* `readScript_only` — the trees that a text reads as.
-/

namespace PageScript

variable (numbers : Int → Prop)

/-- A token that is no number but one of those given. -/
def Token.Only (token : Token) : Prop :=
  ∀ n, token.lexeme = .number n → numbers n

variable {numbers}

theorem Token.only_of_ne {lexeme : Lexeme} (h : ∀ n, lexeme ≠ .number n) (line : Int) :
    Token.Only numbers ⟨lexeme, line⟩ :=
  fun n hn => absurd hn (h n)

/-- **The numbers in a text are script numbers.** -/
theorem scanFrom_only (hwords : ∀ n, numbers (wrap n)) (file : Option String) (line covered : Nat)
    (cs : List Char) : ∀ token ∈ (scanFrom file line covered cs).tokens, token.Only numbers := by
  refine forall_scanFrom (fun digits line n hn => ?_) (fun _ _ => Token.only_of_ne (by simp) _)
    (fun name line => Token.only_of_ne (fun n => ?_) _) (fun _ _ => Token.only_of_ne (by simp) _)
    file line covered cs
  · have hword : wrap (Nat.ofDigitChars 10 digits 0) = n := by
      rw [← Lexeme.number.inj hn, wordOfDigits_eq]
      rfl
    exact hword ▸ hwords _
  · unfold lexemeOfName
    split <;> simp

namespace Grammar

/-- The trees of certain numbers, whichever production they come from. -/
def Harvest.only (numbers : Int → Prop) :
    Harvest fun token => token.IsPlain ∧ token.Only numbers where
  label := Tree.Only numbers
  operand := Tree.Only numbers
  object := Tree.Only numbers
  callee _ := Tree.Only numbers
  expression _ := Tree.Only numbers
  element _ := Tree.Only numbers
  block _ := Tree.Only numbers
  words h := h.1
  hole := trivial
  identifier _ _ _ _ := trivial
  string _ _ _ _ := trivial
  number _ value htoken hvalue := htoken.2 value hvalue
  labelled h := h
  plain h := h
  member hobject hproperty := ⟨hobject, hproperty⟩
  uncalled h := h
  call hcallee harguments := ⟨hcallee, (Tree.onlyAll_iff _).2 harguments⟩
  single h := h
  additive _ hleft hright := ⟨hleft, hright⟩
  assignment hleft hright := ⟨hleft, hright⟩
  declaration htarget hinit := by
    refine ⟨⟨htarget, ?_⟩, trivial⟩
    obtain rfl | hinit := hinit
    · trivial
    · exact hinit
  returnStatement h := h
  expressionStatement h := h
  function hname hparams hbody := ⟨hname, (Tree.onlyAll_iff _).2 hparams, hbody⟩
  body helements := (Tree.onlyAll_iff _).2 helements

/-- **The numbers of a script are script numbers.** -/
theorem readScript_only (hwords : ∀ n, numbers (wrap n)) {source : String} {file : Option String}
    {body : List Tree} (h : readScript source file = .ok body) : Tree.OnlyAll numbers body := by
  have htokens : ∀ token ∈ (scan source file).tokens, token.IsPlain ∧ token.Only numbers :=
    fun token htoken => ⟨scanFrom_plain file 1 0 source.toList token htoken,
      scanFrom_only hwords file 1 0 source.toList token htoken⟩
  refine (Tree.onlyAll_iff body).2 fun tree htree => ?_
  obtain ⟨_, _, honly⟩ := (Harvest.only numbers).readScript htokens h tree htree
  exact honly

end Grammar

end PageScript
