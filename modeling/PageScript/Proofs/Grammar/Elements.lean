import PageScript.Proofs.Grammar.Progress
import PageScript.Proofs.Token.Cutting

/-!
# What an element is

An element is missing only at the end of the input, so long as the tokens are those of a script.

* `Gives` — every value that a reading gives has a property;
* `Takes` — a reading takes a token, if a plain one is ahead;
* `elementWith_there`, `Takes.elementWith` — in front of a plain token there is an element, and it
  takes a token; `elementWith_missing` — at the end of the input there is none;
* `elementWith_function` — the elements that are functions start with their keyword;
* `script_cases`, `script_ends` — a script is its first element and the script behind it, and it ends
  where no token is ahead.
-/

namespace PageScript.Grammar

open Reading

variable {α β : Type}

/-- Every value that a reading gives has a property. -/
def Gives (p : α → Prop) (x : Reading α) : Prop :=
  ∀ cursor value after, x cursor = .ok value after → p value

/-- A reading that takes a token, if a plain one is ahead. -/
def Takes (x : Reading α) : Prop :=
  ∀ (cursor : Cursor) (token : Token) (value : α) (after : Cursor), cursor.current = some token →
    token.IsPlain → x cursor = .ok value after → after.pending.length < cursor.pending.length

theorem Consumes.takes {x : Reading α} (h : Consumes x) : Takes x := by
  intro cursor token value after hcurrent _ hx
  exact h cursor value after hx (by simp [hcurrent])

/-- The token ahead is one of those that are left. -/
theorem mem_pending {cursor : Cursor} {token : Token} (h : cursor.current = some token) :
    token ∈ cursor.pending := by
  simp [Cursor.pending, h]

namespace Gives

variable {p : α → Prop} {q : β → Prop}

theorem any (x : Reading α) : Gives (fun _ => True) x := fun _ _ _ _ => trivial

theorem pure {value : α} (h : p value) : Gives p (Pure.pure value) := by
  intro cursor value' after hvalue
  cases hvalue
  exact h

theorem bind {x : Reading α} {f : α → Reading β} (hx : Gives p x)
    (hf : ∀ value, p value → Gives q (f value)) : Gives q (x >>= f) := by
  intro cursor value after h
  rw [bind_eq] at h
  cases hfirst : x cursor with
  | ok first middle =>
    rw [hfirst] at h
    exact hf first (hx cursor first middle hfirst) middle value after h
  | error stop middle =>
    rw [hfirst] at h
    cases h

/-- The value of a sequence is that of its last reading. -/
theorem last (x : Reading α) {f : α → Reading β} (hf : ∀ value, Gives q (f value)) :
    Gives q (x >>= f) :=
  (any x).bind fun value _ => hf value

end Gives

/-! ### Statements and functions -/

section

variable {assignment body : Reading Tree} {p : Tree → Prop}

theorem functionWith_gives (h : ∀ name params block, p (.function name params block)) :
    Gives p (functionWith body) :=
  .last _ fun name => .last _ fun params => .last _ fun block => .pure (h name params block)

/-- What holds of declarations, returns and expressions holds of the statements in front of a plain
token. -/
theorem statementWith_gives (hdeclaration : ∀ declarators, p (.declaration declarators))
    (hreturn : ∀ argument, p (.returnStatement argument))
    (hexpression : ∀ expression, p (.expressionStatement expression))
    {cursor after : Cursor} {token : Token} {tree : Tree} (hcurrent : cursor.current = some token)
    (hplain : token.IsPlain) (hfunction : token.lexeme ≠ .keyword "function")
    (h : statementWith assignment cursor = .ok tree after) : p tree := by
  have hend : ∀ tree, p tree → Gives p (skipSemicolon >>= fun _ => pure tree) :=
    fun tree htree => .last _ fun _ => .pure htree
  unfold statementWith at h
  rw [current_bind, hcurrent] at h
  obtain ⟨lexeme, line⟩ := token
  cases lexeme with
  | keyword word =>
    have hword := hplain word rfl
    simp only [keywords, List.mem_cons, List.not_mem_nil, or_false] at hword
    rcases hword with rfl | rfl | rfl
    · have hdeclared : Gives p (declarationWith assignment) :=
        .last _ fun _ => .last _ fun _ => .pure (hdeclaration _)
      exact Gives.last advance (fun _ => hdeclared.bind hend) _ _ _ h
    · exact Gives.last advance (fun _ => .last _ fun _ => hend _ (hreturn _)) _ _ _ h
    · exact absurd rfl hfunction
  | _ => exact Gives.last assignment (fun _ => hend _ (hexpression _)) _ _ _ h

/-- At the end of the input there is no element. -/
theorem elementWith_missing {cursor : Cursor} (hcurrent : cursor.current = none) :
    elementWith assignment body cursor = .ok .hole cursor := by
  unfold elementWith
  rw [current_bind, hcurrent]
  rfl

/-- In front of a plain token there is an element. -/
theorem elementWith_there {cursor after : Cursor} {token : Token} {tree : Tree}
    (hcurrent : cursor.current = some token) (hplain : token.IsPlain)
    (h : elementWith assignment body cursor = .ok tree after) : tree.isHole = false := by
  unfold elementWith at h
  rw [current_bind, hcurrent] at h
  by_cases hfunction : token.isKeyword "function"
  · simp only [hfunction, if_true] at h
    have hgives : Gives (fun tree => tree.isHole = false) (functionWith body) :=
      functionWith_gives fun _ _ _ => rfl
    exact Gives.last advance (fun _ => hgives) _ _ _ h
  · simp only [hfunction, Bool.false_eq_true, if_false] at h
    have hlexeme : token.lexeme ≠ .keyword "function" := by simpa [Token.isKeyword] using hfunction
    exact statementWith_gives (p := fun tree => tree.isHole = false) (fun _ => rfl) (fun _ => rfl)
      (fun _ => rfl) hcurrent hplain hlexeme h

/-- An element that is a function starts with its keyword. -/
theorem elementWith_function {cursor after : Cursor} {token : Token} {name block : Tree}
    {params : List Tree} (hcurrent : cursor.current = some token) (hplain : token.IsPlain)
    (h : elementWith assignment body cursor = .ok (.function name params block) after) :
    token.isKeyword "function" := by
  unfold elementWith at h
  rw [current_bind, hcurrent] at h
  by_cases hfunction : token.isKeyword "function"
  · exact hfunction
  · simp only [hfunction, Bool.false_eq_true, if_false] at h
    have hlexeme : token.lexeme ≠ .keyword "function" := by simpa [Token.isKeyword] using hfunction
    have hkind := statementWith_gives (p := fun tree => tree.kind ≠ "FunctionDeclaration")
      (by simp [Tree.kind]) (by simp [Tree.kind]) (by simp [Tree.kind]) hcurrent hplain hlexeme h
    exact absurd rfl hkind

theorem Takes.elementWith (hforward : Forward assignment) (hconsumes : Consumes assignment)
    (hbody : Forward body) : Takes (Grammar.elementWith assignment body) := by
  intro cursor token tree after hcurrent hplain h
  exact elementWith_consumes hforward hconsumes hbody h (elementWith_there hcurrent hplain h)

end

theorem Takes.elementAt (room : Nat) :
    Takes (Grammar.elementWith (assignmentAt room) (bodyAt room)) :=
  Takes.elementWith (forward.assignmentAt room).2 (Consumes.assignmentAt room)
    (forward.bodyAt room).2

theorem Takes.element : Takes Grammar.element :=
  fun cursor => Takes.elementAt (maxNesting - cursor.depth) cursor

/-! ### Scripts -/

/-- **A script that is read** has no element where it starts, or it is an element and the script
behind it. -/
theorem script_cases {cursor last : Cursor} {body : List Tree}
    (h : script cursor = .ok body last) :
    ∃ first after, element cursor = .ok first after ∧
      (first.isHole = true ∧ body = [] ∧ last = after ∨
        first.isHole = false ∧ ∃ others, script after = .ok others last ∧ body = first :: others) := by
  have hrounds : elementsUpToHole element (cursor.pending.length + 1) cursor = .ok body last := h
  rw [elementsUpToHole_succ] at hrounds
  cases helement : element cursor with
  | error stop after =>
    rw [helement] at hrounds
    cases hrounds
  | ok first after =>
    rw [helement] at hrounds
    refine ⟨first, after, rfl, ?_⟩
    cases hhole : first.isHole with
    | true =>
      simp only [hhole, if_true] at hrounds
      cases hrounds
      exact .inl ⟨rfl, rfl, rfl⟩
    | false =>
      -- the element took a token, so the rounds that are left are enough for the others
      have hless := element_consumes helement hhole
      simp only [hhole, Bool.false_eq_true, if_false, elementsUpToHole_rounds _ after hless]
        at hrounds
      cases hothers : script after with
      | error stop last =>
        rw [hothers] at hrounds
        cases hrounds
      | ok others last =>
        rw [hothers] at hrounds
        cases hrounds
        exact .inr ⟨rfl, others, rfl, rfl⟩

/-- Where no element comes, no token is ahead. -/
theorem element_absent {cursor after : Cursor} {tree : Tree}
    (hplain : ∀ token ∈ cursor.pending, token.IsPlain) (h : element cursor = .ok tree after)
    (hhole : tree.isHole = true) : cursor.current = none ∧ after = cursor := by
  cases hcurrent : cursor.current with
  | some token =>
    have htoken : token.IsPlain := hplain token (mem_pending hcurrent)
    have hthere : tree.isHole = false := elementWith_there hcurrent htoken h
    rw [hthere] at hhole
    cases hhole
  | none =>
    have hmissing : element cursor = .ok .hole cursor := elementWith_missing hcurrent
    rw [hmissing] at h
    cases h
    exact ⟨rfl, rfl⟩

/-- The tokens behind an element stood behind its start. -/
theorem element_plain {cursor after : Cursor} {tree : Tree}
    (hplain : ∀ token ∈ cursor.pending, token.IsPlain) (h : element cursor = .ok tree after) :
    ∀ token ∈ after.pending, token.IsPlain := by
  have hsuffix := (forward.element.2 cursor).pending
  rw [h] at hsuffix
  exact fun token htoken => hplain token (hsuffix.subset htoken)

/-- **A script's elements end only where no token is ahead.** -/
theorem script_ends {cursor last : Cursor} {body : List Tree}
    (hplain : ∀ token ∈ cursor.pending, token.IsPlain) (h : script cursor = .ok body last) :
    last.current = none := by
  induction body generalizing cursor with
  | nil =>
    obtain ⟨first, after, hfirst, ⟨hhole, -, rfl⟩ | ⟨-, others, -, hbody⟩⟩ := script_cases h
    · obtain ⟨hcurrent, rfl⟩ := element_absent hplain hfirst hhole
      exact hcurrent
    · cases hbody
  | cons first' others' ih =>
    obtain ⟨first, after, hfirst, ⟨-, hbody, -⟩ | ⟨-, others, hothers, hbody⟩⟩ := script_cases h
    · cases hbody
    · cases hbody
      exact ih (element_plain hplain hfirst) hothers

end PageScript.Grammar
