/-!
# Script numbers

* `wordModulus` — script numbers are counted modulo this number;
* `wrap` — the script number that an integer wraps to;
* `wrap_nonneg`, `wrap_lt` — the range of script numbers.
-/

namespace PageScript

/-- Script numbers are counted modulo this number, the 64th power of two. -/
def wordModulus : Nat := 18446744073709551616

/-- The script number that an integer wraps to. -/
def wrap (n : Int) : Int :=
  n % wordModulus

theorem wrap_nonneg (n : Int) : 0 ≤ wrap n :=
  Int.emod_nonneg n (by decide)

theorem wrap_lt (n : Int) : wrap n < wordModulus :=
  Int.emod_lt_of_pos n (by decide)

end PageScript
