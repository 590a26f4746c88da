import PageScript.Text.Quoted

/-!
# Tokens

The units that a script is read in.

* `Lexeme` — what a token says: a punctuator, a number, a name, a text or a keyword;
* `Token` — a lexeme and the line it starts on;
* `Token.alike` — two tokens that say the same, wherever they stand;
* `Lexeme.kind`, `Lexeme.text`, `Lexeme.shown`, `Token.shown` — their written forms.

A token stream need not come from a script, so the types also hold punctuators, keywords and
kinds of lexeme that no script contains.
-/

namespace PageScript

/-- What a token says. -/
inductive Lexeme where
  | punctuator (mark : String)
  | number (value : Int)
  | identifier (name : String)
  | string (text : String)
  | keyword (word : String)
  | other (kind text : String)
deriving DecidableEq

/-- The name of a kind of lexeme. -/
def Lexeme.kind : Lexeme → String
  | .punctuator _ => "PUNCTUATOR"
  | .number _ => "NUMBER"
  | .identifier _ => "IDENTIFIER"
  | .string _ => "STRING"
  | .keyword _ => "KEYWORD"
  | .other kind _ => kind

/-- The content of a lexeme as bare text, a number in decimal. -/
def Lexeme.text : Lexeme → String
  | .number value => toString value
  | .punctuator text | .identifier text | .string text | .keyword text | .other _ text => text

/-- The content of a lexeme inside a message: a number in decimal, anything else quoted. -/
def Lexeme.shown : Lexeme → String
  | .number value => toString value
  | lexeme => Text.quoted lexeme.text

/-- A lexeme on a line of a script. -/
structure Token where
  lexeme : Lexeme
  line : Int
deriving DecidableEq

namespace Token

/-- Two tokens are alike when they say the same. Their lines may differ. -/
def alike (a b : Token) : Bool :=
  a.lexeme = b.lexeme

/-- Whether a token is the punctuator `mark`. -/
def isPunctuator (mark : String) (token : Token) : Bool :=
  token.lexeme = .punctuator mark

/-- Whether a token is the keyword `word`. -/
def isKeyword (word : String) (token : Token) : Bool :=
  token.lexeme = .keyword word

/-- A token as a listing shows it. -/
def shown (token : Token) : String :=
  s!"Token({token.lexeme.kind}, {token.lexeme.shown}, line={token.line})"

end Token

end PageScript
