/-!
# Blank characters

The characters that surround a setting without belonging to it: the spaces of every script, the
line and paragraph separators, and the separators of the control block.

* `isBlank` — membership in the table;
* `strip` — a text without the blanks at its two ends;
* `isBlank_of_isWhitespace` — the table extends the four characters that core calls whitespace.
-/

namespace PageScript.Text

/-- The code points of the blank characters, in ascending order. -/
def blankCodes : List Nat :=
  [9, 10, 11, 12, 13, 28, 29, 30, 31, 32, 133, 160, 5760, 8192, 8193, 8194, 8195, 8196, 8197,
  8198, 8199, 8200, 8201, 8202, 8232, 8233, 8239, 8287, 12288]

/-- A character is blank when its code point is in the table. -/
def isBlank (c : Char) : Bool :=
  blankCodes.contains c.toNat

/-- A list of characters without the blanks at its two ends. -/
def stripChars (cs : List Char) : List Char :=
  ((cs.dropWhile isBlank).reverse.dropWhile isBlank).reverse

/-- A text without the blanks at its two ends. -/
def strip (text : String) : String :=
  String.ofList (stripChars text.toList)

theorem isBlank_of_isWhitespace {c : Char} (h : c.isWhitespace = true) : isBlank c = true := by
  simp only [Char.isWhitespace, Bool.or_eq_true, decide_eq_true_eq] at h
  rcases h with ((rfl | rfl) | rfl) | rfl <;> decide

end PageScript.Text
