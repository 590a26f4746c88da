import Mathlib.Data.List.DropRight
import Mathlib.Data.List.Pairwise
import Mathlib.Data.Nat.Digits.Defs
import PageScript.Text.Blank
import PageScript.Text.Decimal

/-!
# Numerals, and the blanks around them

What a text has to look like to be read as a number, said without a reader.

* `Text.Surrounds` — a text of blanks around a core, and `stripChars_eq_iff`: the core is what is
  left of the text once it is stripped;
* `Text.IsDigit` — a decimal digit of any script, and its value;
* `Text.DigitRun` — digits with at most one underscore between two of them;
* `Text.Numeral`, `Text.SignedNumeral` — a run of not too many digits, behind a sign or without one;
* `readNatural?_eq_some`, `readInteger?_eq_some` — these texts are read, as these numbers, and no
  others.
-/

namespace PageScript.Text

/-! ### Blanks -/

/-- A text of blanks around a core, which neither begins nor ends with a blank itself. -/
structure Surrounds (cs core : List Char) : Prop where
  between : ∃ left right, cs = left ++ core ++ right ∧ (∀ c ∈ left, isBlank c = true) ∧
    ∀ c ∈ right, isBlank c = true
  first : ∀ c ∈ core.head?, isBlank c = false
  last : ∀ c ∈ core.getLast?, isBlank c = false

/-- Blanks are dropped up to the first character that is none. -/
theorem dropWhile_blanks {left rest : List Char} (hleft : ∀ c ∈ left, isBlank c = true)
    (hrest : ∀ c ∈ rest.head?, isBlank c = false) : (left ++ rest).dropWhile isBlank = rest := by
  rw [List.dropWhile_append_of_pos hleft]
  cases rest with
  | nil => rfl
  | cons c rest => exact List.dropWhile_cons_of_neg (by simp [hrest c rfl])

theorem stripChars_of_surrounds {cs core : List Char} (h : Surrounds cs core) :
    stripChars cs = core := by
  obtain ⟨⟨left, right, rfl, hleft, hright⟩, hfirst, hlast⟩ := h
  show ((left ++ core ++ right).dropWhile isBlank).rdropWhile isBlank = core
  cases core with
  | nil =>
    have hblank : ∀ c ∈ left ++ [] ++ right, isBlank c = true := by
      simpa [or_imp, forall_and] using ⟨hleft, hright⟩
    rw [List.dropWhile_eq_nil_iff.2 hblank, List.rdropWhile_nil]
  | cons c core =>
    have hback : ∀ c ∈ right.reverse, isBlank c = true :=
      fun c hc => hright c (List.mem_reverse.1 hc)
    have hend : ∀ d ∈ (c :: core).reverse.head?, isBlank d = false := by
      rwa [List.head?_reverse]
    have hfirst' : ∀ d ∈ (c :: core ++ right).head?, isBlank d = false := hfirst
    rw [List.append_assoc, dropWhile_blanks hleft hfirst', List.rdropWhile, List.reverse_append,
      dropWhile_blanks hback hend, List.reverse_reverse]

theorem surrounds_stripChars (cs : List Char) : Surrounds cs (stripChars cs) where
  between := by
    refine ⟨cs.takeWhile isBlank, (cs.dropWhile isBlank).rtakeWhile isBlank, ?_,
      fun c => List.mem_takeWhile_imp, fun c => List.mem_rtakeWhile_imp⟩
    show cs = cs.takeWhile isBlank ++ (cs.dropWhile isBlank).rdropWhile isBlank ++ _
    rw [List.append_assoc, List.rdropWhile_append_rtakeWhile, List.takeWhile_append_dropWhile]
  first := by
    intro c hc
    obtain ⟨back, hback⟩ := List.rdropWhile_prefix isBlank (cs.dropWhile isBlank)
    have hcore : ((cs.dropWhile isBlank).rdropWhile isBlank).head? = some c := hc
    have hhead : (cs.dropWhile isBlank).head? = some c := by
      rw [← hback, List.head?_append, hcore, Option.some_or]
    have hnot := List.head?_dropWhile_not isBlank cs
    rwa [hhead] at hnot
  last := by
    intro c hc
    obtain ⟨hne, rfl⟩ := List.mem_getLast?_eq_getLast hc
    exact Bool.eq_false_iff.2 (List.rdropWhile_last_not isBlank (cs.dropWhile isBlank) hne)

/-- **Stripping finds the core of a text.** -/
theorem stripChars_eq_iff {cs core : List Char} : stripChars cs = core ↔ Surrounds cs core :=
  ⟨fun h => h ▸ surrounds_stripChars cs, stripChars_of_surrounds⟩

/-! ### Digits -/

/-- A decimal digit stands its value behind the zero of its script. -/
def IsDigit (c : Char) (value : Nat) : Prop :=
  value < 10 ∧ ∃ first ∈ digitZeros, c.toNat = first + value

/-- The digits of two scripts do not overlap. -/
theorem digitZeros_apart : digitZeros.Pairwise fun a b => a + 10 ≤ b := by
  decide

/-- A digit belongs to one script only. -/
theorem zero_unique {a b n : Nat} (ha : a ∈ digitZeros) (hb : b ∈ digitZeros)
    (han : a ≤ n ∧ n < a + 10) (hbn : b ≤ n ∧ n < b + 10) : a = b := by
  have hpairs : digitZeros.Pairwise fun a b => a + 10 ≤ b ∨ b + 10 ≤ a :=
    List.Pairwise.imp .inl digitZeros_apart
  have hapart : a ≠ b → a + 10 ≤ b ∨ b + 10 ≤ a :=
    have : Std.Symm fun a b : Nat => a + 10 ≤ b ∨ b + 10 ≤ a := ⟨fun _ _ => Or.symm⟩
    hpairs.forall ha hb
  by_contra hne
  have := hapart hne
  omega

theorem digitValue?_eq_some {c : Char} {value : Nat} :
    digitValue? c = some value ↔ IsDigit c value := by
  unfold digitValue?
  rw [Option.map_eq_some_iff]
  constructor
  · rintro ⟨first, hfind, rfl⟩
    have hbounds := List.find?_some hfind
    simp only [Bool.and_eq_true, decide_eq_true_eq] at hbounds
    exact ⟨by omega, first, List.mem_of_find?_eq_some hfind, by omega⟩
  · rintro ⟨hlt, first, hmem, hc⟩
    have hsome :
        (digitZeros.find? fun first => first ≤ c.toNat && c.toNat < first + 10).isSome := by
      refine List.find?_isSome.2 ⟨first, hmem, ?_⟩
      simp only [Bool.and_eq_true, decide_eq_true_eq]
      omega
    obtain ⟨found, hfound⟩ := Option.isSome_iff_exists.1 hsome
    have hbounds := List.find?_some hfound
    simp only [Bool.and_eq_true, decide_eq_true_eq] at hbounds
    obtain rfl := zero_unique (List.mem_of_find?_eq_some hfound) hmem hbounds (by omega)
    exact ⟨found, hfound, by omega⟩

/-! ### Runs of digits -/

/-- Digits with at most one underscore between two of them, and their values. -/
inductive DigitRun : List Char → List Nat → Prop
  | last {c : Char} {digit : Nat} : IsDigit c digit → DigitRun [c] [digit]
  | next {c : Char} {digit : Nat} {cs : List Char} {digits : List Nat} : IsDigit c digit →
      DigitRun cs digits → DigitRun (c :: cs) (digit :: digits)
  | spaced {c : Char} {digit : Nat} {cs : List Char} {digits : List Nat} : IsDigit c digit →
      DigitRun cs digits → DigitRun (c :: '_' :: cs) (digit :: digits)

/-- An underscore is no digit. -/
theorem ne_underscore {c : Char} {digit : Nat} (h : digitValue? c = some digit) : c ≠ '_' := by
  rintro rfl
  have hnone : digitValue? '_' = none := by decide
  rw [hnone] at h
  cases h

/-- An underscore in front of a character is passed over. -/
theorem readDigits?_spaced (c : Char) (cs : List Char) : readDigits? ('_' :: c :: cs) =
    (digitValue? c).bind fun digit => (readDigits? cs).bind fun digits => some (digit :: digits) :=
  rfl

/-- Any other character has to be a digit itself. -/
theorem readDigits?_cons {c : Char} {cs : List Char}
    (h : ∀ next rest, c = '_' → cs = next :: rest → False) :
    readDigits? (c :: cs) = (digitValue? c).bind fun digit =>
      (readDigits? cs).bind fun digits => some (digit :: digits) := by
  rw [readDigits?]
  · rfl
  · exact h

/-- A run of digits is a digit and what may follow it. -/
theorem DigitRun.reads {cs : List Char} {digits : List Nat} (h : DigitRun cs digits) :
    ∃ c rest digit others, cs = c :: rest ∧ digits = digit :: others ∧
      digitValue? c = some digit ∧ readDigits? rest = some others := by
  induction h with
  | last hdigit => exact ⟨_, [], _, [], rfl, rfl, digitValue?_eq_some.2 hdigit, rfl⟩
  | next hdigit _ ih =>
    obtain ⟨c, rest, digit, others, rfl, rfl, hc, hrest⟩ := ih
    refine ⟨_, _, _, _, rfl, rfl, digitValue?_eq_some.2 hdigit, ?_⟩
    rw [readDigits?_cons fun _ _ hmark _ => ne_underscore hc hmark, hc, hrest]
    rfl
  | spaced hdigit _ ih =>
    obtain ⟨c, rest, digit, others, rfl, rfl, hc, hrest⟩ := ih
    refine ⟨_, _, _, _, rfl, rfl, digitValue?_eq_some.2 hdigit, ?_⟩
    rw [readDigits?_spaced, hc, hrest]
    rfl

/-- A digit and what may follow it are a run of digits. -/
theorem digitRun_of_reads {c : Char} {cs : List Char} {digit : Nat} {others : List Nat}
    (hc : digitValue? c = some digit) (hrest : readDigits? cs = some others) :
    DigitRun (c :: cs) (digit :: others) := by
  have hdigit := digitValue?_eq_some.1 hc
  -- the induction follows the reader: the text ends, or the next digit stands behind an underscore
  induction cs using readDigits?.induct generalizing c digit others with
  | case1 =>
    obtain rfl := Option.some.inj hrest
    exact .last hdigit
  | case2 d rest ih =>
    rw [readDigits?_spaced] at hrest
    obtain ⟨next, hd, hrest⟩ := Option.bind_eq_some_iff.1 hrest
    obtain ⟨behind, hbehind, hrest⟩ := Option.bind_eq_some_iff.1 hrest
    obtain rfl := Option.some.inj hrest
    exact .spaced hdigit (ih hd hbehind (digitValue?_eq_some.1 hd))
  | case3 d rest hne ih =>
    rw [readDigits?_cons hne] at hrest
    obtain ⟨next, hd, hrest⟩ := Option.bind_eq_some_iff.1 hrest
    obtain ⟨behind, hbehind, hrest⟩ := Option.bind_eq_some_iff.1 hrest
    obtain rfl := Option.some.inj hrest
    exact .next hdigit (ih hd hbehind (digitValue?_eq_some.1 hd))

/-! ### Numerals -/

/-- A run of no more digits than can be read, and the number that it denotes. -/
def Numeral (cs : List Char) (n : Nat) : Prop :=
  ∃ digits, DigitRun cs digits ∧ digits.length ≤ digitLimit ∧ n = Nat.ofDigits 10 digits.reverse

theorem ofDigits_eq (digits : List Nat) : ofDigits digits = Nat.ofDigits 10 digits.reverse := by
  have hstep : (fun value digit : Nat => value * 10 + digit) =
      fun value digit => (digit : Nat) + 10 * value := by
    funext value digit
    omega
  rw [Nat.ofDigits_eq_foldr, List.foldr_reverse, ofDigits, hstep]
  rfl

/-- **Exactly the numerals are read,** as the numbers that they denote. -/
theorem readNatural?_eq_some {cs : List Char} {n : Nat} :
    readNatural? cs = some n ↔ Numeral cs n := by
  constructor
  · intro h
    cases cs with
    | nil => cases h
    | cons c rest =>
      obtain ⟨digit, hc, h⟩ := Option.bind_eq_some_iff.1 h
      obtain ⟨others, hrest, h⟩ := Option.bind_eq_some_iff.1 h
      split at h
      · next hlength =>
        obtain rfl := Option.some.inj h
        exact ⟨digit :: others, digitRun_of_reads hc hrest, hlength, ofDigits_eq _⟩
      · cases h
  · rintro ⟨digits, hrun, hlength, rfl⟩
    obtain ⟨c, rest, digit, others, rfl, rfl, hc, hrest⟩ := hrun.reads
    have hothers : others.length < digitLimit := hlength
    simp only [readNatural?, hc, hrest, Option.bind_eq_bind, Option.bind_some, if_pos hothers]
    rw [ofDigits_eq]
    rfl

/-- A numeral with a sign in front, or without one, and the integer that it denotes. -/
inductive SignedNumeral : List Char → Int → Prop
  | bare {cs : List Char} {n : Nat} : Numeral cs n → SignedNumeral cs n
  | plus {cs : List Char} {n : Nat} : Numeral cs n → SignedNumeral ('+' :: cs) n
  | minus {cs : List Char} {n : Nat} : Numeral cs n → SignedNumeral ('-' :: cs) (-n)

/-- A numeral begins with a digit. -/
theorem Numeral.first {cs : List Char} {n : Nat} (h : Numeral cs n) :
    ∃ c rest digit, cs = c :: rest ∧ digitValue? c = some digit := by
  obtain ⟨_, hrun, -⟩ := h
  obtain ⟨c, rest, digit, _, hcs, -, hc, -⟩ := hrun.reads
  exact ⟨c, rest, digit, hcs, hc⟩

theorem readInteger?_bare {cs : List Char} {n : Nat} (h : Numeral cs n) :
    readInteger? cs = some n := by
  obtain ⟨c, rest, digit, rfl, hc⟩ := h.first
  have hsign : ∀ mark, digitValue? mark = none → ∀ rest', c :: rest = mark :: rest' → False := by
    rintro mark hmark rest' hcons
    obtain ⟨rfl, -⟩ := List.cons.inj hcons
    rw [hmark] at hc
    cases hc
  rw [readInteger?, readNatural?_eq_some.2 h]
  · rfl
  · exact hsign '-' (by decide)
  · exact hsign '+' (by decide)

/-- **Exactly the signed numerals are read,** as the integers that they denote. -/
theorem readInteger?_eq_some {cs : List Char} {value : Int} :
    readInteger? cs = some value ↔ SignedNumeral cs value := by
  constructor
  · intro h
    unfold readInteger? at h
    split at h
    all_goals
      obtain ⟨_, hsome, rfl⟩ := Option.map_eq_some_iff.1 h
      obtain ⟨n, hn, hvalue⟩ := Option.bind_eq_some_iff.1 hsome
      obtain rfl := Option.some.inj hvalue
    · exact .minus (readNatural?_eq_some.1 hn)
    · exact .plus (readNatural?_eq_some.1 hn)
    · exact .bare (readNatural?_eq_some.1 hn)
  · intro h
    cases h with
    | bare hnumeral => exact readInteger?_bare hnumeral
    | plus hnumeral | minus hnumeral =>
      rw [readInteger?, readNatural?_eq_some.2 hnumeral]
      rfl

end PageScript.Text
