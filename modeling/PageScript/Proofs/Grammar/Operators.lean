import PageScript.Proofs.Grammar.Reads

/-!
# One operator to an expression

What stands to the right of an operator is a whole expression, and behind a whole expression no
operator is ahead. So an expression has one operator of its own at most, and what stands to the left
of it is a single operand, although the productions would take a sum on the left of an assignment.

* `Settles` — a reading behind which no operator is ahead;
* `operationWith` — an operand, or an operator between an operand and an expression;
* `assignmentWith_eq` — an assignment is just that, over expressions that settle;
* `assignmentAt_settles` — and all of them do.
-/

namespace PageScript.Grammar

open Reading

/-- The marks that stand between two operands. -/
def operators : List String := ["+", "-", "="]

/-- A reading behind which no operator is ahead. -/
def Settles (x : Reading Tree) : Prop :=
  ∀ cursor tree after, x cursor = .ok tree after →
    Clear operators (after.current.map (·.lexeme))

/-- An operand, or an operator between an operand and an expression. -/
def operationWith (item : Reading Tree) : Reading Tree := do
  let left ← calleeWith item
  match (← current).bind additiveOperator? with
  | some operator =>
    let _ ← advance
    let right ← item
    return .additive operator left right
  | none =>
    if ← atPunctuator "=" then
      let _ ← advance
      let right ← item
      return .assignment .assign left right
    return left

/-! ### What is ahead -/

section

variable {token : Option Token}

theorem any_of_clear {marks : List String} (h : Clear marks (token.map (·.lexeme))) {mark : String}
    (hmark : mark ∈ marks) : token.any (·.isPunctuator mark) = false := by
  cases token with
  | none => rfl
  | some token =>
    have hne : token.lexeme ≠ .punctuator mark := by simpa using h mark hmark
    exact decide_eq_false hne

/-- No operator is ahead if neither a sign nor `=` is. -/
theorem clear_operators (hsign : token.bind additiveOperator? = none)
    (hequals : token.any (·.isPunctuator "=") = false) :
    Clear operators (token.map (·.lexeme)) := by
  cases token with
  | none => exact fun _ _ => nofun
  | some token =>
    intro mark hmark hlexeme
    have hfound : token.isPunctuator mark = true := decide_eq_true (Option.some.inj hlexeme)
    rw [operators, List.mem_cons, List.mem_cons, List.mem_singleton] at hmark
    rcases hmark with rfl | rfl | rfl
    · simp [additiveOperator?, hfound] at hsign
    · by_cases hplus : token.isPunctuator "+" = true
      · simp [additiveOperator?, hplus] at hsign
      · simp [additiveOperator?, hplus, hfound] at hsign
    · simp [hfound] at hequals

/-- A sign stands for an addition or a subtraction. -/
theorem additiveOperator?_eq {operator : Operator}
    (h : token.bind additiveOperator? = some operator) : operator = .add ∨ operator = .sub := by
  obtain ⟨sign, -, hsign⟩ := Option.bind_eq_some_iff.1 h
  unfold additiveOperator? at hsign
  split at hsign
  · exact .inl (Option.some.inj hsign).symm
  · split at hsign
    · exact .inr (Option.some.inj hsign).symm
    · cases hsign

theorem atPunctuator_bind {α : Type} (mark : String) (f : Bool → Reading α) (cursor : Cursor) :
    (atPunctuator mark >>= f) cursor = f (cursor.current.any (·.isPunctuator mark)) cursor := rfl

end

/-- Behind an expression that settles there is no use in looking for `=`. -/
theorem Settles.unequalled {item : Reading Tree} (h : Settles item) (f : Tree → Tree)
    (other : Tree → Reading Tree) :
    (item >>= fun tree => atPunctuator "=" >>= fun found =>
      if found then other tree else pure (f tree)) = item >>= fun tree => pure (f tree) := by
  funext cursor
  rw [bind_eq, bind_eq]
  cases hitem : item cursor with
  | error stop after => rfl
  | ok tree after =>
    have hequals : after.current.any (·.isPunctuator "=") = false :=
      any_of_clear (h cursor tree after hitem) (by simp [operators])
    show (atPunctuator "=" >>= fun found => if found then other tree else pure (f tree)) after = _
    rw [atPunctuator_bind, hequals]
    rfl

/-- **One operator to an expression.** Where the right operand is an expression that settles, no `=`
comes behind a sum. -/
theorem assignmentWith_eq {item : Reading Tree} (h : Settles item) :
    assignmentWith item = operationWith item := by
  unfold assignmentWith additiveWith operationWith
  rw [bind_assoc]
  refine congrArg (calleeWith item >>= ·) (funext fun left => ?_)
  rw [bind_assoc]
  refine congrArg (current >>= ·) (funext fun token => ?_)
  cases token.bind additiveOperator? with
  | none => exact pure_bind _ _
  | some operator =>
    simp only [bind_assoc, pure_bind]
    exact congrArg (advance >>= ·) (funext fun _ => h.unequalled (.additive operator left) _)

/-! ### Readings that settle -/

namespace Settles

/-- What comes last decides. -/
theorem last {α : Type} (x : Reading α) {f : α → Reading Tree} (hf : ∀ value, Settles (f value)) :
    Settles (x >>= f) := by
  intro cursor tree after h
  rw [bind_eq] at h
  cases hfirst : x cursor with
  | error stop middle =>
    rw [hfirst] at h
    cases h
  | ok value middle =>
    rw [hfirst] at h
    exact hf value middle tree after h

theorem giving {item : Reading Tree} (h : Settles item) (f : Tree → Tree) :
    Settles (item >>= fun tree => pure (f tree)) := by
  intro cursor tree after hresult
  rw [bind_eq] at hresult
  cases hitem : item cursor with
  | error stop middle =>
    rw [hitem] at hresult
    cases hresult
  | ok value middle =>
    rw [hitem] at hresult
    cases hresult
    exact h cursor value after hitem

theorem deeper {item : Reading Tree} (h : Settles item) : Settles (deeper item) := by
  intro cursor tree after hresult
  unfold Reading.deeper at hresult
  cases hitem : item { cursor with depth := cursor.depth + 1 } with
  | error stop middle =>
    rw [hitem] at hresult
    cases hresult
  | ok value middle =>
    rw [hitem] at hresult
    cases hresult
    exact h { cursor with depth := cursor.depth + 1 } tree middle hitem

theorem operationWith {item : Reading Tree} (h : Settles item) :
    Settles (operationWith item) := by
  refine .last _ fun left cursor tree after hresult => ?_
  rw [current_bind] at hresult
  cases hsign : cursor.current.bind additiveOperator? with
  | some operator =>
    rw [hsign] at hresult
    exact Settles.last advance (fun _ => h.giving _) cursor tree after hresult
  | none =>
    rw [hsign] at hresult
    dsimp only at hresult
    rw [atPunctuator_bind] at hresult
    cases hequals : cursor.current.any (·.isPunctuator "=") with
    | true =>
      rw [hequals] at hresult
      exact Settles.last advance (fun _ => h.giving _) cursor tree after hresult
    | false =>
      -- nothing has been read since the operand
      rw [hequals] at hresult
      cases hresult
      exact clear_operators hsign hequals

end Settles

/-- **Behind an expression no operator is ahead.** -/
theorem assignmentAt_settles (room : Nat) : Settles (assignmentAt room) := by
  induction room with
  | zero => exact .last current fun _ _ _ _ h => nomatch h
  | succ room ih =>
    have hoperation : Settles (assignmentWith (assignmentAt room)) := by
      rw [assignmentWith_eq ih]
      exact ih.operationWith
    exact hoperation.deeper

end PageScript.Grammar
