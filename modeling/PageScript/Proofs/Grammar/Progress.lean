import PageScript.Proofs.Grammar.Correspondence

/-!
# Reading goes forward

A reading never goes back, and it enters as many levels as it leaves. An element that is there takes
at least one token, so the number of rounds that a script is read in is no bound on it.

* `Cursor.Follows` — a cursor that has been moved forward, and is on the same level as before;
* `Forward`, `forward` — every production moves its cursor forward, however it ends;
* `Consumes` — a reading that takes a token if there is one;
* `elementsUpToHole_rounds` — the elements of a script do not depend on the number of rounds, if it
  exceeds the number of tokens.
-/

namespace PageScript

/-- A later cursor in the same tokens, at the same level. -/
structure Cursor.Follows (before after : Cursor) : Prop where
  pending : after.pending <:+ before.pending
  depth : after.depth = before.depth
  file : after.file = before.file

namespace Cursor.Follows

theorem refl (cursor : Cursor) : cursor.Follows cursor :=
  ⟨List.suffix_refl _, rfl, rfl⟩

theorem trans {a b c : Cursor} (hab : a.Follows b) (hbc : b.Follows c) : a.Follows c :=
  ⟨hbc.pending.trans hab.pending, hbc.depth.trans hab.depth, hbc.file.trans hab.file⟩

end Cursor.Follows

namespace Grammar

open Reading

variable {α β : Type}

/-- The cursor that a reading ends at, whichever way it ends. -/
def final : EStateM.Result Stop Cursor α → Cursor
  | .ok _ cursor => cursor
  | .error _ cursor => cursor

theorem bind_eq (x : Reading α) (f : α → Reading β) (cursor : Cursor) :
    (x >>= f) cursor = match x cursor with
      | .ok value cursor => f value cursor
      | .error stop cursor => .error stop cursor := by
  show EStateM.bind x f cursor = _
  unfold EStateM.bind
  cases x cursor <;> rfl

/-! ### Taking the token ahead -/

section

variable (token : Token) (depth : Nat) (file : Option String)

theorem advance_next (next : Token) (tokens : List Token) (failure : Option Failure) :
    advance ⟨some token, ⟨next :: tokens, failure⟩, depth, file⟩ =
      .ok (some token) ⟨some next, ⟨tokens, failure⟩, depth, file⟩ := rfl

theorem advance_last :
    advance ⟨some token, ⟨[], none⟩, depth, file⟩ =
      .ok (some token) ⟨none, .finished, depth, file⟩ := rfl

theorem advance_failed (failure : Failure) :
    advance ⟨some token, ⟨[], some failure⟩, depth, file⟩ =
      .error (.failed failure) ⟨some token, .finished, depth, file⟩ := rfl

end

/-! ### Moving forward -/

/-- A reading that moves its cursor forward, however it ends. -/
def Forward (x : Reading α) : Prop :=
  ∀ cursor : Cursor, cursor.Follows (final (x cursor))

theorem Forward.bind {x : Reading α} {f : α → Reading β} (hx : Forward x)
    (hf : ∀ value, Forward (f value)) : Forward (x >>= f) := by
  intro cursor
  have hfirst := hx cursor
  rw [bind_eq]
  cases hresult : x cursor with
  | ok value after =>
    rw [hresult] at hfirst
    exact hfirst.trans (hf value after)
  | error stop after =>
    rw [hresult] at hfirst
    exact hfirst

theorem Forward.advance : Forward advance := by
  rintro ⟨current, ⟨tokens, failure⟩, depth, file⟩
  rcases current with _ | token
  · exact .refl _
  · rcases tokens with _ | ⟨next, tokens⟩
    · rcases failure with _ | failure
      · rw [advance_last]
        exact ⟨List.nil_suffix, rfl, rfl⟩
      · -- the failure is spent, but the token ahead stays
        rw [advance_failed]
        exact ⟨List.suffix_refl _, rfl, rfl⟩
    · rw [advance_next]
      exact ⟨List.suffix_cons token (next :: tokens), rfl, rfl⟩

theorem Forward.deeper {x : Reading α} (hx : Forward x) : Forward (deeper x) := by
  intro cursor
  obtain ⟨hpending, hdepth, hfile⟩ := hx { cursor with depth := cursor.depth + 1 }
  unfold Reading.deeper
  cases hresult : x { cursor with depth := cursor.depth + 1 } with
  | ok value after | error stop after =>
    rw [hresult] at hpending hdepth hfile
    refine ⟨hpending, ?_, hfile⟩
    simp only [final] at hdepth ⊢
    omega

/-- **Every production goes forward**, since all of its moves do. -/
def forward : Correspondence where
  Alike a b := a = b
  Rel x y := x = y ∧ Forward x
  lexeme h := by rw [h]
  pure value := ⟨rfl, fun cursor => .refl cursor⟩
  bind hx hf := ⟨by rw [hx.1, funext fun value => (hf value).1], hx.2.bind fun value => (hf value).2⟩
  current hf := ⟨by rw [funext fun token => (hf token token rfl).1],
    Forward.bind (fun cursor => .refl cursor) fun token => (hf token token rfl).2⟩
  advance hf := ⟨by rw [funext fun token => (hf token token rfl).1],
    Forward.bind .advance fun token => (hf token token rfl).2⟩
  expected mark _ _ h := ⟨by rw [h], fun cursor => .refl cursor⟩
  nesting limit _ _ h := ⟨by rw [h], fun cursor => .refl cursor⟩
  stall := ⟨rfl, fun cursor => .refl cursor⟩
  deeper hx := ⟨by rw [hx.1], hx.2.deeper⟩
  rounds hf := ⟨by rw [funext fun rounds => (hf rounds).1],
    fun cursor => (hf (cursor.pending.length + 1)).2 cursor⟩
  room hf := ⟨by rw [funext fun room => (hf room).1],
    fun cursor => (hf (maxNesting - cursor.depth)).2 cursor⟩

/-! ### Taking a token -/

/-- A reading that takes at least one token, if there is one and it does not fail. -/
def Consumes (x : Reading α) : Prop :=
  ∀ cursor value after, x cursor = .ok value after → cursor.current.isSome →
    after.pending.length < cursor.pending.length

theorem Consumes.advance : Consumes advance := by
  rintro ⟨current, ⟨tokens, failure⟩, depth, file⟩ value after h hsome
  obtain ⟨token, rfl⟩ := Option.isSome_iff_exists.1 hsome
  rcases tokens with _ | ⟨next, tokens⟩
  · rcases failure with _ | failure
    · rw [advance_last] at h
      cases h
      simp [Cursor.pending, Scan.finished]
    · rw [advance_failed] at h
      cases h
  · rw [advance_next] at h
    cases h
    simp [Cursor.pending]

/-- The first reading takes the token, and the second does not give it back. -/
theorem Consumes.bind {x : Reading α} {f : α → Reading β} (hx : Consumes x)
    (hf : ∀ value, Forward (f value)) : Consumes (x >>= f) := by
  intro cursor value after h hsome
  rw [bind_eq] at h
  cases hresult : x cursor with
  | ok first middle =>
    rw [hresult] at h
    have hfirst := hx cursor first middle hresult hsome
    have hsecond := (hf first middle).pending.length_le
    rw [show f first middle = .ok value after from h] at hsecond
    simp only [final] at hsecond
    omega
  | error stop middle =>
    rw [hresult] at h
    exact absurd h (by simp)

theorem Consumes.deeper {x : Reading α} (hx : Consumes x) : Consumes (deeper x) := by
  intro cursor value after h hsome
  unfold Reading.deeper at h
  cases hresult : x { cursor with depth := cursor.depth + 1 } with
  | ok first middle =>
    rw [hresult] at h
    obtain ⟨-, rfl⟩ : first = value ∧ { middle with depth := middle.depth - 1 } = after := by
      simpa using h
    exact hx { cursor with depth := cursor.depth + 1 } first middle hresult hsome
  | error stop middle =>
    rw [hresult] at h
    exact absurd h (by simp)

theorem Consumes.identifier : Consumes identifier :=
  Consumes.bind .advance fun token => by
    split <;> exact (forward.pure _).2

theorem Consumes.primary : Consumes primary :=
  Consumes.bind .advance fun token => by
    split <;> exact (forward.pure _).2

theorem Consumes.member : Consumes member :=
  Consumes.bind .primary fun _ =>
    (forward.option "." (forward.bind forward.identifier fun _ => forward.pure _)
      (forward.pure _)).2

section

variable {nested : Reading Tree}

theorem Consumes.calleeWith (h : Forward nested) : Consumes (calleeWith nested) :=
  Consumes.bind .member fun _ =>
    (forward.option "(" (forward.bind (forward.list ")" ⟨rfl, h⟩) fun _ => forward.pure _)
      (forward.pure _)).2

theorem Consumes.additiveWith (h : Forward nested) : Consumes (additiveWith nested) :=
  (Consumes.calleeWith h).bind fun _ =>
    (forward.signed (fun _ => forward.bind ⟨rfl, h⟩ fun _ => forward.pure _) (forward.pure _)).2

theorem Consumes.assignmentWith (h : Forward nested) : Consumes (assignmentWith nested) :=
  (Consumes.additiveWith h).bind fun _ =>
    (forward.option "=" (forward.bind ⟨rfl, h⟩ fun _ => forward.pure _) (forward.pure _)).2

end

/-- An assignment takes a token, if there is one. With no level left it fails. -/
theorem Consumes.assignmentAt (room : Nat) : Consumes (assignmentAt room) := by
  cases room with
  | zero =>
    intro cursor value after h
    exact absurd h (by simp [Grammar.assignmentAt, tooDeep, bind_eq, current, refuse])
  | succ room => exact (Consumes.assignmentWith (forward.assignmentAt room).2).deeper

/-! ### Elements -/

section

variable {assignment body : Reading Tree}

/-- A production that looks at the token ahead and then goes on. -/
theorem current_bind (f : Option Token → Reading β) (cursor : Cursor) :
    (current >>= f) cursor = f cursor.current cursor := rfl

/-- A statement that is there takes a token. -/
theorem statementWith_consumes (hforward : Forward assignment) (hconsumes : Consumes assignment)
    {cursor after : Cursor} {tree : Tree} (h : statementWith assignment cursor = .ok tree after)
    (hthere : tree.isHole = false) : after.pending.length < cursor.pending.length := by
  have hend : ∀ tree : Tree, Forward (skipSemicolon >>= fun _ => pure tree) := fun tree =>
    (forward.bind forward.skipSemicolon fun _ => forward.pure tree).2
  unfold statementWith at h
  rw [current_bind] at h
  cases hcurrent : cursor.current with
  | none =>
    rw [hcurrent] at h
    cases h
    exact absurd hthere (by simp [Tree.isHole])
  | some token =>
    have hsome : cursor.current.isSome := by simp [hcurrent]
    obtain ⟨lexeme, line⟩ := token
    rw [hcurrent] at h
    cases lexeme with
    | keyword word =>
      by_cases hvar : word = "var"
      · subst hvar
        refine Consumes.bind .advance (fun _ => ?_) cursor tree after h hsome
        exact (forward.declarationWith ⟨rfl, hforward⟩).2.bind hend
      · by_cases hreturn : word = "return"
        · subst hreturn
          refine Consumes.bind .advance (fun _ => ?_) cursor tree after h hsome
          exact hforward.bind fun _ => hend _
        · -- no other keyword starts a statement, so there is a hole
          have hrest : (skipSemicolon >>= fun _ => pure Tree.hole) cursor = .ok tree after := by
            simpa [hvar, hreturn] using h
          rw [bind_eq] at hrest
          cases hskip : skipSemicolon cursor with
          | ok value middle =>
            rw [hskip] at hrest
            cases hrest
            exact absurd hthere (by simp [Tree.isHole])
          | error stop middle =>
            rw [hskip] at hrest
            cases hrest
    | _ => exact (hconsumes.bind fun _ => hend _) cursor tree after h hsome

/-- An element that is there takes a token. -/
theorem elementWith_consumes (hforward : Forward assignment) (hconsumes : Consumes assignment)
    (hbody : Forward body) {cursor after : Cursor} {tree : Tree}
    (h : elementWith assignment body cursor = .ok tree after) (hthere : tree.isHole = false) :
    after.pending.length < cursor.pending.length := by
  unfold elementWith at h
  rw [current_bind] at h
  cases hcurrent : cursor.current with
  | none =>
    rw [hcurrent] at h
    cases h
    exact absurd hthere (by simp [Tree.isHole])
  | some token =>
    rw [hcurrent] at h
    by_cases hfunction : token.isKeyword "function"
    · simp only [hfunction, if_true] at h
      refine Consumes.bind .advance (fun _ => ?_) cursor tree after h (by simp [hcurrent])
      exact (forward.functionWith ⟨rfl, hbody⟩).2
    · simp only [hfunction] at h
      exact statementWith_consumes hforward hconsumes h hthere

end

theorem element_consumes {cursor after : Cursor} {tree : Tree}
    (h : element cursor = .ok tree after) (hthere : tree.isHole = false) :
    after.pending.length < cursor.pending.length :=
  elementWith_consumes (forward.assignmentAt _).2 (Consumes.assignmentAt _) (forward.bodyAt _).2 h
    hthere

theorem elementsUpToHole_succ (rounds : Nat) (cursor : Cursor) :
    elementsUpToHole element (rounds + 1) cursor =
      match element cursor with
      | .ok first after =>
        if first.isHole then .ok [] after
        else match elementsUpToHole element rounds after with
          | .ok others last => .ok (first :: others) last
          | .error stop last => .error stop last
      | .error stop after => .error stop after := by
  rw [elementsUpToHole, bind_eq]
  cases element cursor with
  | ok first after =>
    cases hhole : first.isHole with
    | true => simp only [hhole, if_true]; rfl
    | false =>
      simp only [hhole, Bool.false_eq_true, if_false]
      rw [bind_eq]
      cases elementsUpToHole element rounds after <;> rfl
  | error stop after => rfl

/-- Two numbers of rounds that exceed the number of tokens left are as good as each other. -/
theorem elementsUpToHole_congr (rounds rounds' : Nat) (cursor : Cursor)
    (h : cursor.pending.length < rounds) (h' : cursor.pending.length < rounds') :
    elementsUpToHole element rounds cursor = elementsUpToHole element rounds' cursor := by
  induction rounds generalizing rounds' cursor with
  | zero => omega
  | succ rounds ih =>
    obtain ⟨rounds', rfl⟩ : ∃ n, rounds' = n + 1 := ⟨rounds' - 1, by omega⟩
    rw [elementsUpToHole_succ, elementsUpToHole_succ]
    cases helement : element cursor with
    | error stop after => rfl
    | ok first after =>
      by_cases hhole : first.isHole
      · simp only [hhole, if_true]
      · -- the element took a token, so one round less is enough for the rest
        have hless := element_consumes helement (Bool.eq_false_iff.2 hhole)
        simp only [ih rounds' after (by omega) (by omega)]

/-- **The number of rounds does not matter** to the elements of a script, once it exceeds the number
of tokens that are left. -/
theorem elementsUpToHole_rounds (rounds : Nat) (cursor : Cursor)
    (h : cursor.pending.length < rounds) :
    elementsUpToHole element rounds cursor = script cursor :=
  elementsUpToHole_congr rounds (cursor.pending.length + 1) cursor h (Nat.lt_succ_self _)

end Grammar

end PageScript
