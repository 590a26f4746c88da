import PageScript.Token.Scan

/-!
# A cursor over tokens

A program is read through a cursor that sees exactly one token ahead.

* `Cursor` — the token ahead, the tokens behind it, and how deep the reading has nested;
* `Cursor.start` — the cursor at the first token;
* `Cursor.pending` — the tokens that have not been consumed;
* `Reading` — an action that moves a cursor and may stop;
* `Reading.advance`, `Reading.eat`, `Reading.atPunctuator` — the moves.

The tokens are fetched one at a time. A failure behind the last token stops the action that
fetches it. The token ahead then stays where it is, with nothing behind it.
-/

namespace PageScript

/-- A position in a stream of tokens. -/
structure Cursor where
  /-- The token ahead. There is none at the end of the input. -/
  current : Option Token
  /-- The tokens that have not been fetched. -/
  ahead : Scan
  /-- The number of nested constructs that are being read. -/
  depth : Nat
  /-- The file that failures name. -/
  file : Option String
deriving DecidableEq

/-- Why an action on a cursor stops. -/
inductive Stop where
  | failed (failure : Failure)
  /-- The reading would go round the same token for ever. -/
  | stalled
deriving DecidableEq

namespace Cursor

/-- The cursor at the first token of a stream, if that token can be fetched. -/
def start (tokens : Scan) (file : Option String) : Except Failure Cursor :=
  match tokens.next with
  | (.ok current, ahead) => .ok { current, ahead, depth := 0, file }
  | (.error failure, _) => .error failure

/-- The tokens that have not been consumed, the one ahead first. -/
def pending (cursor : Cursor) : List Token :=
  cursor.current.toList ++ cursor.ahead.tokens

end Cursor

/-- An action that moves a cursor. It keeps the cursor where it stops. -/
abbrev Reading := EStateM Stop Cursor

namespace Reading

variable {α : Type}

/-- The token ahead. -/
def current : Reading (Option Token) := fun cursor =>
  .ok cursor.current cursor

/-- Stops with a structural failure in the file of the cursor. -/
def refuse (cause : StructuralCause) : Reading α := fun cursor =>
  .error (.failed (.structural cause cursor.file)) cursor

/-- Consumes the token ahead and returns it. At the end of the input nothing changes. -/
def advance : Reading (Option Token) := fun cursor =>
  match cursor.current with
  | none => .ok none cursor
  | some token =>
    match cursor.ahead.next with
    | (.ok current, ahead) => .ok (some token) { cursor with current, ahead }
    | (.error failure, ahead) => .error (.failed failure) { cursor with ahead }

/-- Whether the token ahead is the punctuator `mark`. -/
def atPunctuator (mark : String) : Reading Bool := fun cursor =>
  .ok (cursor.current.any (·.isPunctuator mark)) cursor

/-- Consumes the token ahead, which has to be the punctuator `mark`. -/
def eat (mark : String) : Reading Token := do
  match ← advance with
  | none => refuse (.expected mark none)
  | some token => if token.isPunctuator mark then return token else refuse (.expected mark token)

/-- An action read one level deeper. The level is left however the action ends. -/
def deeper (action : Reading α) : Reading α := fun cursor =>
  match action { cursor with depth := cursor.depth + 1 } with
  | .ok value cursor => .ok value { cursor with depth := cursor.depth - 1 }
  | .error stop cursor => .error stop { cursor with depth := cursor.depth - 1 }

end Reading

end PageScript
