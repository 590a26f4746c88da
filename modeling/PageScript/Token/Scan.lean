import PageScript.Failure
import PageScript.Word

/-!
# From text to tokens

A script is cut into tokens from left to right, each as long as it can be.

* `Scan` — the tokens that a text yields, and the failure that ends them, if one does;
* `Scan.next` — taking the tokens one at a time;
* `scanFrom` — the tokens of a text whose first line has a given number;
* `scan` — the tokens of a script.

Spaces, tabs and carriage returns are skipped, and a line feed ends a line. Numbers wrap at
`wordModulus`, however long they are written. A text between quotes holds neither its own quote
nor a line feed, and no character of it is special.
-/

namespace PageScript

/-- The words that are no identifiers. -/
def keywords : List String := ["var", "return", "function"]

/-- The characters that are tokens by themselves. -/
def punctuators : List Char :=
  ['+', '-', ';', '=', '(', ')', '\x7b', '\x7d', ',', '.']

/-- A decimal digit of the basic script. -/
def isDigit (c : Char) : Bool :=
  '0' ≤ c && c ≤ '9'

/-- A character that a name may start with: a letter of the basic script or an underscore. -/
def isNameStart (c : Char) : Bool :=
  ('A' ≤ c && c ≤ 'Z') || ('a' ≤ c && c ≤ 'z') || c = '_'

/-- A character that a name may go on with. -/
def isNamePart (c : Char) : Bool :=
  isNameStart c || isDigit c

/-- A character that separates tokens within a line. -/
def isSpace (c : Char) : Bool :=
  c = ' ' || c = '\t' || c = '\x0d'

/-- A character that may stand between two of the given quotes. -/
def isInside (mark c : Char) : Bool :=
  c ≠ mark && c ≠ '\n'

/-- The value of a run of digits, as far as a script number holds it. -/
def wordOfDigits (digits : List Char) : Nat :=
  digits.foldl (fun value digit => (value * 10 + (digit.toNat - 48)) % wordModulus) 0

/-- A name is a keyword or an identifier. -/
def lexemeOfName (name : String) : Lexeme :=
  if keywords.contains name then .keyword name else .identifier name

/-! ### Streams of tokens -/

/-- The tokens still to come, and the failure behind them, if the text does not end well. -/
structure Scan where
  tokens : List Token
  failure : Option Failure
deriving DecidableEq

namespace Scan

/-- A finished stream. -/
def finished : Scan := ⟨[], none⟩

/-- A stream of given tokens. -/
def ofTokens (tokens : List Token) : Scan := ⟨tokens, none⟩

/-- A stream that starts with a failure. -/
def failed (failure : Failure) : Scan := ⟨[], some failure⟩

/-- A stream with one more token in front. -/
def push (token : Token) (scan : Scan) : Scan := ⟨token :: scan.tokens, scan.failure⟩

/-- Takes the first token. A failure is met once, and then the stream is finished. -/
def next (scan : Scan) : Except Failure (Option Token) × Scan :=
  match scan.tokens, scan.failure with
  | token :: tokens, failure => (.ok (some token), ⟨tokens, failure⟩)
  | [], some failure => (.error failure, finished)
  | [], none => (.ok none, finished)

end Scan

/-! ### Cutting -/

/-- The tokens of a text whose first character stands on the given line. The first `covered`
characters belong to a token that has been cut already. -/
def scanFrom (file : Option String) : (line covered : Nat) → List Char → Scan
  | _, _, [] => .finished
  | line, covered + 1, _ :: rest => scanFrom file line covered rest
  | line, 0, c :: rest =>
    if c = '\n' then scanFrom file (line + 1) 0 rest
    else if isSpace c then scanFrom file line 0 rest
    else if isDigit c then
      let more := rest.takeWhile isDigit
      .push ⟨.number (wordOfDigits (c :: more)), line⟩ (scanFrom file line more.length rest)
    else if c = '"' ∨ c = '\'' then
      let inside := rest.takeWhile (isInside c)
      if rest[inside.length]? = some c then
        .push ⟨.string (String.ofList inside), line⟩
          (scanFrom file line (inside.length + 1) rest)
      else .failed (.lexical .unterminatedString (some line) file)
    else if isNameStart c then
      let more := rest.takeWhile isNamePart
      .push ⟨lexemeOfName (String.ofList (c :: more)), line⟩
        (scanFrom file line more.length rest)
    else if punctuators.contains c then
      .push ⟨.punctuator (String.singleton c), line⟩ (scanFrom file line 0 rest)
    else .failed (.lexical (.unexpectedCharacter (String.singleton c)) (some line) file)

/-- The tokens of a script. Its first line is line 1. -/
def scan (source : String) (file : Option String) : Scan :=
  scanFrom file 1 0 source.toList

/-- Covered characters have no say in what follows them. -/
theorem scanFrom_covered (file : Option String) (line covered : Nat) (cs : List Char) :
    scanFrom file line covered cs = scanFrom file line 0 (cs.drop covered) := by
  induction cs generalizing covered with
  | nil => cases covered <;> rfl
  | cons c rest ih =>
    cases covered with
    | zero => rfl
    | succ covered => simpa only [scanFrom, List.drop_succ_cons] using ih covered

end PageScript
