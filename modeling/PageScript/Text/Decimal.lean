/-!
# Decimal integers

Reading and writing integers in decimal notation.

* `digitValue?` — the value of a decimal digit of any script;
* `readInteger?` — an optional sign, then digits with at most one underscore between two of them;
* `writeInteger?` — the plain decimal text of an integer.

Both directions stop at the same size: a run of more than `digitLimit` digits is neither read,
leading zeros counted, nor written.
-/

namespace PageScript.Text

/-- The most digits that an integer may have in a text. -/
def digitLimit : Nat := 4300

/-- The code points of the zeros of every script. The digits of a script follow their zero. -/
def digitZeros : List Nat :=
  [48, 1632, 1776, 1984, 2406, 2534, 2662, 2790, 2918, 3046, 3174, 3302, 3430, 3558, 3664, 3792,
  3872, 4160, 4240, 6112, 6160, 6470, 6608, 6784, 6800, 6992, 7088, 7232, 7248, 42528, 43216,
  43264, 43472, 43504, 43600, 44016, 65296, 66720, 68912, 69734, 69872, 69942, 70096, 70384,
  70736, 70864, 71248, 71360, 71472, 71904, 72016, 72784, 73040, 73120, 92768, 92864, 93008,
  120782, 120792, 120802, 120812, 120822, 123200, 123632, 125264, 130032]

/-- The value of a decimal digit, whatever its script. -/
def digitValue? (c : Char) : Option Nat :=
  (digitZeros.find? fun first => first ≤ c.toNat && c.toNat < first + 10).map (c.toNat - ·)

/-- The digits that may follow a digit: more digits, each after at most one underscore. -/
def readDigits? : List Char → Option (List Nat)
  | [] => some []
  | '_' :: c :: rest => do
      let digit ← digitValue? c
      let digits ← readDigits? rest
      return digit :: digits
  | c :: rest => do
      let digit ← digitValue? c
      let digits ← readDigits? rest
      return digit :: digits

/-- The number that a list of digits denotes, most significant digit first. -/
def ofDigits (digits : List Nat) : Nat :=
  digits.foldl (fun value digit => value * 10 + digit) 0

/-- A natural number in decimal notation, of at most `digitLimit` digits. -/
def readNatural? : List Char → Option Nat
  | [] => none
  | c :: rest => do
      let digit ← digitValue? c
      let digits ← readDigits? rest
      if digits.length < digitLimit then return ofDigits (digit :: digits) else none

/-- An integer in decimal notation: a natural number after an optional sign. -/
def readInteger? : List Char → Option Int
  | '-' :: rest => (readNatural? rest).map fun n => -(n : Int)
  | '+' :: rest => (readNatural? rest).map fun n => (n : Int)
  | cs => (readNatural? cs).map fun n => (n : Int)

/-- The decimal text of an integer, if it has at most `digitLimit` digits. -/
def writeInteger? (n : Int) : Option String :=
  if n.natAbs < Nat.pow 10 digitLimit then some (toString n) else none

end PageScript.Text
