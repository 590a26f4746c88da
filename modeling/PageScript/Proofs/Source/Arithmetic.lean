import PageScript.Proofs.Evaluation.Unlimited
import PageScript.Proofs.Grammar.Scripts
import PageScript.Proofs.Source.Reading
import PageScript.Proofs.Token.Segments

/-!
# Chains of numbers

Numbers with a plus or a minus between every two of them, from their text to their value.

* `Operand`, `Chain` — a number as it is written, and such a chain of them;
* `Chain.text`, `Chain.value` — how a chain is written, and the integer that it stands for, each sign
  applying to all that follows it;
* `Chain.scan_text` — the text of a chain is cut into its numbers and signs;
* `Chain.readTokens_tokens`, `Chain.readTokens_refused` — a chain is read as one statement, unless
  it has more numbers than there are levels; then it is refused at the first one too many;
* `Amounts` — a tree that is evaluated to a number, whatever the state is;
* `readScript_chain` — a chain that is read and evaluated gives its value, as far as a script number
  holds it, or it is refused at the number that is one too many.
-/

namespace PageScript.Source

open Grammar Evaluation Eval

/-! ### Chains -/

/-- A number as it is written, between gaps. -/
structure Operand where
  before : List Char
  digits : List Char
  after : List Char
  blankBefore : ∀ c ∈ before, isGap c
  written : digits ≠ []
  decimal : ∀ c ∈ digits, isDigit c
  blankAfter : ∀ c ∈ after, isGap c

/-- The number that the digits of an operand denote. -/
def Operand.value (operand : Operand) : Nat :=
  Nat.ofDigitChars 10 operand.digits 0

/-- The token of a number that is written behind the given text. -/
def Operand.token (operand : Operand) (before : List Char) : Token where
  lexeme := .number (operand.value % wordModulus : Nat)
  line := ((before ++ operand.before).count '\n' + 1 : Nat)

def Operand.text (operand : Operand) : List Char :=
  operand.before ++ operand.digits ++ operand.after

def Sign.char : Sign → Char
  | .plus => '+'
  | .minus => '-'

def Sign.apply : Sign → Int → Int → Int
  | .plus, left, right => left + right
  | .minus, left, right => left - right

/-- Numbers with a sign between every two of them. -/
structure Chain where
  /-- All numbers but the last, each with the sign behind it. -/
  signed : List (Operand × Sign)
  last : Operand

namespace Chain

/-- The numbers of a chain. -/
def operands (chain : Chain) : List Operand :=
  chain.signed.map Prod.fst ++ [chain.last]

/-- The text of numbers with a sign behind each of them. -/
def front (signed : List (Operand × Sign)) : List Char :=
  signed.flatMap fun item => item.1.text ++ [item.2.char]

def text (chain : Chain) : List Char :=
  front chain.signed ++ chain.last.text

/-- The integer that a chain stands for: each sign applies to all that follows it. -/
def value (chain : Chain) : Int :=
  chain.signed.foldr (fun item rest => item.2.apply item.1.value rest) chain.last.value

end Chain

/-! ### From text to tokens -/

theorem Operand.fits (operand : Operand) :
    (Lexeme.number (operand.value % wordModulus : Nat)).SpelledAs operand.digits :=
  ⟨operand.written, operand.decimal, rfl⟩

theorem Sign.fits (sign : Sign) : (Lexeme.punctuator sign.mark).SpelledAs [sign.char] := by
  cases sign with
  | plus => exact ⟨'+', by decide, rfl, rfl⟩
  | minus => exact ⟨'-', by decide, rfl, rfl⟩

def Operand.segment (operand : Operand) : Segment where
  gap := operand.before
  lexeme := .number (operand.value % wordModulus : Nat)
  spelled := operand.digits
  blank := operand.blankBefore
  fits := operand.fits

/-- A sign behind an operand. -/
def Sign.segment (sign : Sign) (operand : Operand) : Segment where
  gap := operand.after
  lexeme := .punctuator sign.mark
  spelled := [sign.char]
  blank := operand.blankAfter
  fits := sign.fits

namespace Chain

/-- The segments of numbers with a sign behind each of them. -/
def segments (signed : List (Operand × Sign)) : List Segment :=
  signed.flatMap fun item => [item.1.segment, item.2.segment item.1]

/-- The segments of a whole chain, behind which only the gap of the last number is left. -/
def allSegments (chain : Chain) : List Segment :=
  segments chain.signed ++ [chain.last.segment]

theorem written_segments (signed : List (Operand × Sign)) :
    Segment.written (segments signed) = front signed := by
  induction signed with
  | nil => rfl
  | cons item rest ih =>
    have hrest : front (item :: rest) = item.1.text ++ [item.2.char] ++ front rest :=
      List.flatMap_cons
    have hsegments : segments (item :: rest) =
        item.1.segment :: item.2.segment item.1 :: segments rest := List.flatMap_cons
    rw [hsegments, Segment.written_cons, Segment.written_cons, ih, hrest]
    simp [Operand.segment, Sign.segment, Operand.text]

theorem apart (chain : Chain) :
    chain.allSegments.IsChain Segment.Apart := by
  obtain ⟨signed, last⟩ := chain
  induction signed with
  | nil => exact .singleton _
  | cons item rest ih =>
    have hnumber : Segment.Apart item.1.segment (item.2.segment item.1) :=
      fun hfuses => Bool.noConfusion hfuses
    have hmark : ∀ next : Segment, Segment.Apart (item.2.segment item.1) next :=
      fun next hfuses => Bool.noConfusion hfuses
    show (item.1.segment :: item.2.segment item.1 :: allSegments ⟨rest, last⟩).IsChain _
    rw [List.isChain_cons_cons, List.isChain_cons]
    exact ⟨hnumber, fun next _ => hmark next, ih⟩

theorem written_allSegments (chain : Chain) :
    Segment.written chain.allSegments ++ chain.last.after = chain.text := by
  rw [Segment.written, allSegments, List.flatMap_append]
  show Segment.written (segments chain.signed) ++ Segment.written [chain.last.segment] ++ _ = _
  rw [written_segments, text, Segment.written_cons]
  simp [Operand.segment, Operand.text, Segment.written]

/-- **The text of a chain** is cut into its numbers and signs. -/
theorem scan_text (chain : Chain) (file : Option String) :
    scan (String.ofList chain.text) file = .ofTokens (Segment.tokens [] chain.allSegments) := by
  have hseparate : Segment.Separate chain.allSegments chain.last.after :=
    Segment.separate_of_apart chain.apart chain.last.blankAfter
  rw [← chain.written_allSegments, scan, String.toList_ofList]
  exact Segment.scanFrom_written file hseparate chain.last.blankAfter []

/-- The first token of a chain is its first number. -/
theorem tokens_first (chain : Chain) (before : List Char) :
    ∃ operand more, chain.operands.head? = some operand ∧
      Segment.tokens before chain.allSegments = operand.token before :: more := by
  obtain ⟨signed, last⟩ := chain
  cases signed with
  | nil => exact ⟨last, _, rfl, rfl⟩
  | cons item rest => exact ⟨item.1, _, rfl, rfl⟩

end Chain

/-! ### From tokens to trees -/

def Operand.callee (operand : Operand) : Callee :=
  .plain ⟨.number ⟨operand.value % wordModulus, Nat.mod_lt _ (by decide)⟩, none⟩

namespace Chain

/-- What a chain reads as. -/
def expression (chain : Chain) : Expression :=
  chain.signed.foldr (fun item rest => .additive item.2 item.1.callee rest)
    (.single chain.last.callee)

theorem levels_expression (chain : Chain) :
    chain.expression.levels = chain.operands.length := by
  obtain ⟨signed, last⟩ := chain
  induction signed with
  | nil => rfl
  | cons item rest ih =>
    show max 0 (expression ⟨rest, last⟩).levels + 1 = _
    rw [Nat.zero_max, ih]
    rfl

theorem lexemes_expression (chain : Chain) :
    chain.allSegments.map (·.lexeme) = chain.expression.lexemes := by
  obtain ⟨signed, last⟩ := chain
  induction signed with
  | nil => rfl
  | cons item rest ih =>
    show _ :: _ :: (allSegments ⟨rest, last⟩).map (·.lexeme) = _
    rw [ih]
    rfl

/-- A chain with no more numbers than there are levels is read as one statement. -/
theorem readTokens_tokens (chain : Chain) (h : chain.operands.length ≤ maxNesting)
    (file : Option String) :
    readTokens (.ofTokens (Segment.tokens [] chain.allSegments)) file =
      .ok [.expressionStatement chain.expression.tree] := by
  have hexpression : Reads 0 afterExpression (assignmentAt maxNesting) chain.expression.lexemes
      chain.expression.tree :=
    chain.expression.reads maxNesting (by rw [levels_expression]; exact h) 0
  have hitem : Item afterStatement chain.expression.lexemes
      (.expressionStatement chain.expression.tree) :=
    ⟨.room (statement_unterminated chain.expression hexpression), chain.expression.opens, rfl⟩
  have hitems : ∀ expression ∈ [chain.expression],
      Item afterStatement expression.lexemes (.expressionStatement expression.tree) := by
    simpa using hitem
  have htokens : (Segment.tokens [] chain.allSegments).map (·.lexeme) =
      [chain.expression].flatMap Expression.lexemes := by
    rw [Segment.map_lexeme_tokens, lexemes_expression, List.flatMap_singleton]
  have hclear : Clear afterStatement Scan.finished.first := fun _ _ h => nomatch h
  have hread : readTokens (Scan.finished.prepend _) file = _ :=
    readTokens_items hitems htokens hclear
  rw [Scan.prepend, Scan.finished, List.append_nil] at hread
  exact hread

/-- What is refused behind a number and a sign is refused from the number on, where a level more is
left. -/
theorem signed_refuses {room depth : Nat} (operand : Operand) (sign : Sign) (line line' : Int)
    {next : Token} {tokens : List Token} {cause : StructuralCause}
    (h : Refuses (depth + 1) (assignmentAt room) (next :: tokens) cause) :
    Refuses depth (assignmentAt (room + 1))
      (⟨.number (operand.value % wordModulus : Nat), line⟩ :: ⟨.punctuator sign.mark, line'⟩ ::
        next :: tokens) cause := by
  have hoperand : Reads (depth + 1) [".", "("] (calleeWith (assignmentAt room))
      operand.callee.lexemes operand.callee.tree :=
    operand.callee.reads room (Nat.zero_le _) (depth + 1)
  have hclear : Clear [".", "("] (some (.punctuator sign.mark)) := by
    cases sign <;> simp [Clear, Sign.mark]
  have hsign : additiveOperator? ⟨.punctuator sign.mark, line'⟩ = some sign.operator := by
    cases sign <;> rfl
  have hadditive : Refuses (depth + 1) (additiveWith (assignmentAt room))
      ([⟨.number (operand.value % wordModulus : Nat), line⟩] ++
        ⟨.punctuator sign.mark, line'⟩ :: next :: tokens) cause := by
    refine .behind hoperand rfl hclear (.current ?_)
    simp only [Option.bind_some, hsign]
    exact .advance (.first h)
  exact .deeper (.first hadditive)

/-- **Behind as many signed numbers as there are levels left,** a reading is refused at the token
that follows. -/
theorem refuses (signed : List (Operand × Sign)) (before : List Char) (token : Token)
    (tokens : List Token) (depth : Nat) :
    Refuses depth (assignmentAt signed.length)
      (Segment.tokens before (segments signed) ++ token :: tokens)
      (.nesting maxNesting token) := by
  induction signed generalizing before depth with
  | nil => exact .tooDeep
  | cons item rest ih =>
    obtain ⟨operand, sign⟩ := item
    obtain ⟨next, more, hmore⟩ := List.exists_cons_of_ne_nil
      (List.append_ne_nil_of_right_ne_nil (Segment.tokens
        (before ++ operand.segment.chars ++ (sign.segment operand).chars) (segments rest))
        (List.cons_ne_nil token tokens))
    have hrest := ih (before ++ operand.segment.chars ++ (sign.segment operand).chars) (depth + 1)
    rw [hmore] at hrest
    show Refuses depth (assignmentAt (rest.length + 1))
      (_ :: _ :: (Segment.tokens _ (segments rest) ++ token :: tokens)) _
    rw [hmore]
    exact signed_refuses operand sign _ _ hrest

/-- What is refused as an expression that starts with a number is refused as an element. -/
theorem element_refuses {value line : Int} {tokens : List Token} {cause : StructuralCause}
    (h : Refuses 0 (assignmentAt maxNesting) (⟨.number value, line⟩ :: tokens) cause) :
    Refuses 0 element (⟨.number value, line⟩ :: tokens) cause :=
  .room (.current (.current (.first h)))

/-- **A chain with more numbers than there are levels** is refused at the first number for which
there is no level. -/
theorem readTokens_refused (chain : Chain) (h : maxNesting < chain.operands.length)
    (file : Option String) :
    readTokens (.ofTokens (Segment.tokens [] chain.allSegments)) file =
      .error (.failed (.structural (.nesting maxNesting
        (some (chain.operands[maxNesting].token (front (chain.signed.take maxNesting))))) file)) := by
  have hlength : maxNesting ≤ chain.signed.length := by
    simp only [operands, List.length_append, List.length_map, List.length_singleton] at h
    omega
  have htake : (chain.signed.take maxNesting).length = maxNesting := List.length_take_of_le hlength
  obtain ⟨_, others, -, hwhole⟩ := chain.tokens_first []
  obtain ⟨operand, more, hoperand, hback⟩ := tokens_first ⟨chain.signed.drop maxNesting, chain.last⟩
    (front (chain.signed.take maxNesting))
  have hfound : chain.operands[maxNesting] = operand := by
    have hdrop : chain.operands.drop maxNesting =
        operands ⟨chain.signed.drop maxNesting, chain.last⟩ := by
      rw [operands, List.drop_append_of_le_length (by rwa [List.length_map]), ← List.map_drop]
      rfl
    rw [← hdrop, List.head?_drop, List.getElem?_eq_getElem h] at hoperand
    exact Option.some.inj hoperand
  -- the tokens are those of the first numbers, up to the last that there is a level for, and the rest
  have hsplit : Segment.tokens [] chain.allSegments =
      Segment.tokens [] (segments (chain.signed.take maxNesting)) ++
        Segment.tokens (front (chain.signed.take maxNesting))
          (allSegments ⟨chain.signed.drop maxNesting, chain.last⟩) := by
    have hsegments : chain.allSegments = segments (chain.signed.take maxNesting) ++
        allSegments ⟨chain.signed.drop maxNesting, chain.last⟩ := by
      rw [allSegments, allSegments, ← List.append_assoc, segments, segments, segments,
        ← List.flatMap_append, List.take_append_drop]
    rw [hsegments, Segment.tokens_append, written_segments, List.nil_append]
  have hrefuses := refuses (chain.signed.take maxNesting) []
    (operand.token (front (chain.signed.take maxNesting))) more 0
  rw [htake, ← hback, ← hsplit, hwhole] at hrefuses
  have hread := readTokens_refuses (element_refuses hrefuses) .finished file
  rw [hfound, hwhole]
  rw [Scan.prepend, Scan.finished, List.append_nil] at hread
  exact hread

end Chain

/-! ### From trees to values -/

theorem wrap_apply (sign : Sign) (left right : Int) :
    wrap (sign.apply (wrap left) (wrap right)) = wrap (sign.apply left right) := by
  cases sign with
  | plus => exact (Int.emod_add_emod ..).trans (Int.add_emod_emod ..)
  | minus => exact (Int.emod_sub_emod ..).trans (Int.sub_emod_emod ..)

theorem wrap_mod (value : Nat) : wrap (value % wordModulus : Nat) = wrap value :=
  (congrArg wrap (Int.natCast_emod ..)).trans (Int.emod_emod ..)

/-- A tree that is evaluated to a number, whatever the state is. -/
def Amounts (engine : Engine) (room : Nat) (tree : Tree) (number : Int) : Prop :=
  ∀ state, ∃ after, evalAt engine room tree state = .ok (.number number) after

section

variable {engine : Engine} (h : engine.limits.maxSteps = none)
include h

/-- What the layer of a tree gives in every state is the value of the tree. -/
theorem Amounts.of_layer {room : Nat} {tree : Tree} {number : Int} (hne : tree ≠ .hole)
    (hlayer : ∀ state, ∃ after,
      layer engine (evalAt engine room) tree state = .ok (.number number) after) :
    Amounts engine (room + 1) tree number := by
  intro state
  obtain ⟨after, hafter⟩ := hlayer state.inside
  refine ⟨after.outside, ?_⟩
  rw [evalAt_unlimited h room hne, hafter]
  rfl

theorem Amounts.number (room : Nat) (value : Int) :
    Amounts engine (room + 1) (.number value) (wrap value) :=
  .of_layer h Tree.noConfusion fun state => ⟨state, rfl⟩

theorem Amounts.additive {room : Nat} {left right : Tree} {a b : Int} (sign : Sign)
    (hleft : Amounts engine room left a) (hright : Amounts engine room right b) :
    Amounts engine (room + 1) (.additive sign.operator left right) (wrap (sign.apply a b)) := by
  refine .of_layer h Tree.noConfusion fun state => ?_
  obtain ⟨middle, hmiddle⟩ := hleft state
  obtain ⟨after, hafter⟩ := hright middle
  refine ⟨after, ?_⟩
  show evalAdditive engine (evalAt engine room) sign.operator left right state = _
  rw [evalAdditive, bind_of_ok hmiddle, bind_of_ok hafter]
  cases sign <;> rfl

theorem Amounts.expressionStatement {room : Nat} {tree : Tree} {number : Int}
    (htree : Amounts engine room tree number) :
    Amounts engine (room + 1) (.expressionStatement tree) number :=
  .of_layer h Tree.noConfusion htree

/-- **A chain is evaluated to its value,** as far as a script number holds it. -/
theorem Amounts.chain (chain : Chain) (room : Nat) (hroom : chain.operands.length ≤ room) :
    Amounts engine room chain.expression.tree (wrap chain.value) := by
  have hnumber : ∀ (operand : Operand) (room : Nat), Amounts engine (room + 1)
      operand.callee.tree (wrap operand.value) := by
    intro operand room
    have hvalue := Amounts.number h room (operand.value % wordModulus : Nat)
    rwa [wrap_mod] at hvalue
  obtain ⟨signed, last⟩ := chain
  induction signed generalizing room with
  | nil =>
    obtain ⟨levels, rfl⟩ : ∃ levels, room = levels + 1 := ⟨room - 1, by
      have : 1 ≤ room := hroom
      omega⟩
    exact hnumber last levels
  | cons item rest ih =>
    obtain ⟨operand, sign⟩ := item
    have hrest : (Chain.operands ⟨rest, last⟩).length + 1 ≤ room := hroom
    have hlast : 0 < (Chain.operands ⟨rest, last⟩).length := by simp [Chain.operands]
    obtain ⟨levels, rfl⟩ : ∃ levels, room = levels + 2 := ⟨room - 2, by omega⟩
    have hsum := Amounts.additive h sign (hnumber operand levels)
      (ih (levels + 1) (Nat.le_of_succ_le_succ hrest))
    rw [wrap_apply] at hsum
    exact hsum

end

/-- **Arithmetic groups to the right and wraps.** A chain of at most `maxNesting` numbers is read as
one statement, and the value of that statement, in a new run without a bound on steps, is the integer
that the chain stands for, as far as a script number holds it. A longer chain is refused, because it
nests too deeply, at the first number for which there is no level. -/
theorem readScript_chain (chain : Chain) (file : Option String) :
    (chain.operands.length ≤ maxNesting → ∃ tree,
      readScript (String.ofList chain.text) file = .ok [.expressionStatement tree] ∧
      ∀ (engine : Engine) globals world, engine.limits.maxSteps = none →
        outcome (eval engine (.expressionStatement tree) (.initial globals world)) =
          .ok (.number (chain.value % wordModulus))) ∧
    ∀ h : maxNesting < chain.operands.length,
      readScript (String.ofList chain.text) file = .error (.failed (.structural (.nesting maxNesting
        (some (chain.operands[maxNesting].token (Chain.front (chain.signed.take maxNesting)))))
        file)) := by
  refine ⟨fun h => ⟨chain.expression.tree, ?_, fun engine globals world hsteps => ?_⟩, fun h => ?_⟩
  · rw [readScript, chain.scan_text]
    exact chain.readTokens_tokens h file
  · have hroom : chain.operands.length ≤ 255 := Nat.le_trans h (by decide)
    have hchain := Amounts.chain hsteps chain 255 hroom
    obtain ⟨after, hafter⟩ := hchain.expressionStatement hsteps (.initial globals world)
    show outcome (evalAt engine 256 (.expressionStatement chain.expression.tree) _) = _
    rw [hafter]
    rfl
  · rw [readScript, chain.scan_text]
    exact chain.readTokens_refused h file

/-- An operand from its three texts, if they are what they should be. -/
def Operand.checked (before digits after : List Char)
    (h : (before.all isGap && !digits.isEmpty && digits.all isDigit && after.all isGap) = true) :
    Operand where
  before := before
  digits := digits
  after := after
  blankBefore := by
    simp only [Bool.and_eq_true, List.all_eq_true] at h
    exact h.1.1.1
  written := by
    rintro rfl
    simp at h
  decimal := by
    simp only [Bool.and_eq_true, List.all_eq_true] at h
    exact h.1.2
  blankAfter := by
    simp only [Bool.and_eq_true, List.all_eq_true] at h
    exact h.2

/-- `1 - 02`, and on the next line `+` and a number three beyond the range of script numbers. -/
def shortChain : Chain where
  signed := [(.checked [] ['1'] [' '] (by decide), .minus),
    (.checked [' '] ['0', '2'] ['\n'] (by decide), .plus)]
  last := .checked ['\t'] "18446744073709551619".toList [] (by decide)

/-- Sixty-four times `1+`, and `7` on a line of its own. -/
def longChain : Chain where
  signed := List.replicate 64 (.checked [] ['1'] [] (by decide), .plus)
  last := .checked ['\n'] ['7'] ['\n'] (by decide)

/-- The short chain is worth `1 - (2 + 3)`, and the long one is refused at its seven. -/
theorem readScript_chain_samples :
    (shortChain.operands.length ≤ maxNesting ∧ ∃ tree,
      readScript "1 - 02\n+\t18446744073709551619" none = .ok [.expressionStatement tree] ∧
      outcome (eval ⟨none, .standard, .idle⟩ (.expressionStatement tree)
        (.initial [] (.ofStore .empty))) = .ok (.number 18446744073709551612)) ∧
    (maxNesting < longChain.operands.length ∧
      readScript (String.ofList longChain.text) none =
        .error (.failed (.structural (.nesting 64 (some ⟨.number 7, 2⟩)) none))) := by
  have hshort : shortChain.operands.length ≤ maxNesting := by decide
  have hlong : maxNesting < longChain.operands.length := by decide
  obtain ⟨tree, hread, heval⟩ := (readScript_chain shortChain none).1 hshort
  have hvalue := heval ⟨none, .standard, .idle⟩ [] (.ofStore .empty) rfl
  have hrefused := (readScript_chain longChain none).2 hlong
  have htext : shortChain.text = "1 - 02\n+\t18446744073709551619".toList := by decide +kernel
  have htotal : shortChain.value % wordModulus = 18446744073709551612 := by decide +kernel
  have htoken : longChain.operands[maxNesting].token
      (Chain.front (longChain.signed.take maxNesting)) = ⟨.number 7, 2⟩ := rfl
  rw [htext, String.ofList_toList] at hread
  rw [htotal] at hvalue
  rw [htoken] at hrefused
  exact ⟨⟨hshort, tree, hread, hvalue⟩, hlong, hrefused⟩

end PageScript.Source
