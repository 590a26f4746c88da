/-!
# Script files as text

A script file is read as UTF-8, and each of the three line ends becomes a line feed.

* `unifyLineEnds` — carriage returns, alone or before a line feed, become line feeds;
* `decode?` — the text of a file, if its bytes are well formed.
-/

namespace PageScript.Text

/-- Every line end becomes a single line feed. -/
def unifyLineEnds : List Char → List Char
  | [] => []
  | '\r' :: '\n' :: rest => '\n' :: unifyLineEnds rest
  | '\r' :: rest => '\n' :: unifyLineEnds rest
  | c :: rest => c :: unifyLineEnds rest

/-- The text of a file. A mark at its start is kept, and ill-formed bytes have no text. -/
def decode? (bytes : ByteArray) : Option String :=
  (String.fromUTF8? bytes).map fun text => String.ofList (unifyLineEnds text.toList)

end PageScript.Text
