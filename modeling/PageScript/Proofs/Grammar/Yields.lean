import PageScript.Proofs.Grammar.Elements
import PageScript.Proofs.Grammar.Operators

/-!
# What the productions yield

A tree is put together by the productions alone, so whatever each of them passes on from the parts
to the whole holds of all trees that can be read.

* `Yields` — from tokens of one kind, a reading yields values with a property, and leaves such
  tokens;
* `Yields.bind`, `Yields.advance`, `Yields.rounds` — the rules for readings that are put together;
* `Harvest` — properties of the trees that each production gives, by the levels that are left;
* `Harvest.assignmentAt`, `Harvest.bodyAt` — expressions and bodies have theirs;
* `Harvest.readScript` — and so have the elements of every script.
-/

namespace PageScript.Grammar

open Reading

variable {α β : Type}

/-- Where all tokens that are left have one property, a reading gives a value with another, and
still all tokens have the first. -/
def Yields (q : Token → Prop) (p : α → Prop) (x : Reading α) : Prop :=
  ∀ cursor value after, (∀ token ∈ cursor.pending, q token) → x cursor = .ok value after →
    p value ∧ ∀ token ∈ after.pending, q token

namespace Yields

variable {q : Token → Prop} {p : α → Prop} {r : β → Prop}

theorem pure {value : α} (h : p value) : Yields q p (Pure.pure value) := by
  intro cursor value' after hcursor hvalue
  cases hvalue
  exact ⟨h, hcursor⟩

theorem bind {x : Reading α} {f : α → Reading β} (hx : Yields q p x)
    (hf : ∀ value, p value → Yields q r (f value)) : Yields q r (x >>= f) := by
  intro cursor value after hcursor h
  rw [bind_eq] at h
  cases hfirst : x cursor with
  | error stop middle =>
    rw [hfirst] at h
    cases h
  | ok first middle =>
    rw [hfirst] at h
    obtain ⟨hvalue, hmiddle⟩ := hx cursor first middle hcursor hfirst
    exact hf first hvalue middle value after hmiddle h

theorem andThen {x : Reading α} {y : Reading β} (hx : Yields q p x) (hy : Yields q r y) :
    Yields q r (x >>= fun _ => y) :=
  hx.bind fun _ _ => hy

theorem refuse (cause : StructuralCause) : Yields q p (refuse cause : Reading α) :=
  fun _ _ _ _ h => nomatch h

theorem stall : Yields q p (throw .stalled : Reading α) :=
  fun _ _ _ _ h => nomatch h

theorem current : Yields q (fun found => ∀ token ∈ found, q token) current := by
  intro cursor value after hcursor h
  cases h
  exact ⟨fun token htoken => hcursor token (mem_pending htoken), hcursor⟩

theorem advance : Yields q (fun found => ∀ token ∈ found, q token) advance := by
  intro cursor value after hcursor h
  have hsuffix := (Forward.advance cursor).pending
  rw [h] at hsuffix
  have hvalue : value = cursor.current := by
    obtain ⟨_ | token, ⟨_ | ⟨next, tokens⟩, _ | failure⟩, depth, file⟩ := cursor <;> cases h <;> rfl
  subst hvalue
  exact ⟨fun token htoken => hcursor token (mem_pending htoken),
    fun token htoken => hcursor token (hsuffix.subset htoken)⟩

theorem ahead (mark : String) : Yields q (fun _ => True) (atPunctuator mark) := by
  intro cursor value after hcursor h
  cases h
  exact ⟨trivial, hcursor⟩

theorem deeper {x : Reading α} (hx : Yields q p x) : Yields q p (deeper x) := by
  intro cursor value after hcursor h
  unfold Reading.deeper at h
  cases hinner : x { cursor with depth := cursor.depth + 1 } with
  | error stop middle =>
    rw [hinner] at h
    cases h
  | ok value' middle =>
    rw [hinner] at h
    cases h
    exact hx { cursor with depth := cursor.depth + 1 } value middle hcursor hinner

/-- There are never more levels left than there are altogether. -/
theorem room {f : Nat → Reading α} (h : ∀ room ≤ maxNesting, Yields q p (f room)) :
    Yields q p (withRoom f) :=
  fun cursor => h (maxNesting - cursor.depth) (Nat.sub_le ..) cursor

theorem rounds {f : Nat → Reading α} (h : ∀ rounds, Yields q p (f rounds)) :
    Yields q p fun cursor => f (cursor.pending.length + 1) cursor :=
  fun cursor => h (cursor.pending.length + 1) cursor

/-- A part that is read behind a mark, and only there. -/
theorem option (mark : String) {x other : Reading α} (hx : Yields q p x)
    (hother : Yields q p other) :
    Yields q p (atPunctuator mark >>= fun found =>
      if found then Reading.advance >>= fun _ => x else other) := by
  refine (ahead mark).bind fun found _ => ?_
  cases found with
  | true => exact advance.andThen hx
  | false => exact hother

theorem eat (mark : String) : Yields q (fun _ => True) (eat mark) := by
  rw [eat_eq]
  refine advance.bind fun found _ => ?_
  split
  · exact refuse _
  · split
    · exact pure trivial
    · exact refuse _

end Yields

theorem tooDeep_yields {q : Token → Prop} {p : α → Prop} : Yields q p (tooDeep : Reading α) :=
  Yields.bind .current fun _ _ => .refuse _

/-! ### Properties of what is read -/

/-- Properties of trees that the productions pass on from the parts to the whole, provided that all
tokens have a property, which only the keywords of the language have among all keywords. Those of
expressions, elements and blocks may depend on the number of levels that are left. -/
structure Harvest (q : Token → Prop) where
  /-- A name, or a hole in its place. -/
  label : Tree → Prop
  /-- A label, a text or a number. -/
  operand : Tree → Prop
  /-- An operand, or a property of one. -/
  object : Tree → Prop
  callee : (room : Nat) → Tree → Prop
  expression : (room : Nat) → Tree → Prop
  element : (room : Nat) → Tree → Prop
  block : (room : Nat) → Tree → Prop
  words : ∀ {token}, q token → token.IsPlain
  hole : label .hole
  identifier : ∀ token name, q token → token.lexeme = .identifier name → label (.identifier name)
  string : ∀ token text, q token → token.lexeme = .string text → operand (.string text)
  number : ∀ token value, q token → token.lexeme = .number value → operand (.number value)
  labelled : ∀ {tree}, label tree → operand tree
  plain : ∀ {tree}, operand tree → object tree
  member : ∀ {tree property}, operand tree → label property → object (.member tree property)
  uncalled : ∀ {room tree}, object tree → callee room tree
  call : ∀ {room tree arguments}, object tree → (∀ item ∈ arguments, expression room item) →
    callee room (.call tree arguments)
  single : ∀ {room tree}, callee room tree → expression (room + 1) tree
  additive : ∀ {room operator left right}, operator = .add ∨ operator = .sub →
    callee room left → expression room right →
    expression (room + 1) (.additive operator left right)
  assignment : ∀ {room left right}, callee room left → expression room right →
    expression (room + 1) (.assignment .assign left right)
  declaration : ∀ {room target init}, label target → init = .hole ∨ expression room init →
    element room (.declaration [.declarator target init])
  returnStatement : ∀ {room argument}, expression room argument →
    element room (.returnStatement argument)
  expressionStatement : ∀ {room tree}, expression room tree →
    element room (.expressionStatement tree)
  function : ∀ {room name params body}, label name → (∀ param ∈ params, label param) →
    block room body → element room (.function name params body)
  body : ∀ {room elements}, (∀ item ∈ elements, element room item) →
    block (room + 1) (.block elements)

namespace Harvest

variable {q : Token → Prop} (H : Harvest q)

/-! ### Expressions -/

theorem identifier_yields : Yields q H.label Grammar.identifier := by
  refine Yields.bind .advance fun found hfound => ?_
  split
  · exact .pure (H.identifier _ _ (hfound _ rfl) rfl)
  · exact .pure H.hole

theorem primary_yields : Yields q H.operand primary := by
  refine Yields.bind .advance fun found hfound => ?_
  split
  · exact .pure (H.labelled (H.identifier _ _ (hfound _ rfl) rfl))
  · exact .pure (H.string _ _ (hfound _ rfl) rfl)
  · exact .pure (H.number _ _ (hfound _ rfl) rfl)
  · exact .pure (H.labelled H.hole)

theorem member_yields : Yields q H.object Grammar.member :=
  H.primary_yields.bind fun _ hobject =>
    .option "." (H.identifier_yields.bind fun _ hproperty => .pure (H.member hobject hproperty))
      (.pure (H.plain hobject))

omit H in
theorem list_yields {p : Tree → Prop} {item : Reading Tree} (h : Yields q p item) (close : String) :
    Yields q (fun trees => ∀ tree ∈ trees, p tree) (list close item) := by
  have hnone : ∀ tree ∈ ([] : List Tree), p tree := fun _ htree => absurd htree List.not_mem_nil
  refine .rounds fun rounds => ?_
  induction rounds with
  | zero => exact .stall
  | succ rounds ih =>
    refine Yields.bind .current fun found _ => ?_
    split
    · exact .pure hnone
    · split
      · exact Yields.andThen .advance (.pure hnone)
      · split
        · exact Yields.andThen .advance ih
        · refine h.bind fun _ hfirst => ih.bind fun _ hothers => ?_
          exact .pure (List.forall_mem_cons.2 ⟨hfirst, hothers⟩)

section

variable {room : Nat} {item : Reading Tree} (h : Yields q (H.expression room) item)
include h

theorem calleeWith_yields : Yields q (H.callee room) (calleeWith item) :=
  H.member_yields.bind fun _ hcallee =>
    .option "(" ((list_yields h ")").bind fun _ harguments => .pure (H.call hcallee harguments))
      (.pure (H.uncalled hcallee))

theorem operationWith_yields : Yields q (H.expression (room + 1)) (operationWith item) := by
  refine (H.calleeWith_yields h).bind fun left hleft => Yields.bind .current fun found _ => ?_
  split
  · next operator hoperator =>
    have hsign := additiveOperator?_eq hoperator
    exact Yields.andThen .advance (h.bind fun _ hright => .pure (H.additive hsign hleft hright))
  · exact .option "=" (h.bind fun _ hright => .pure (H.assignment hleft hright))
      (.pure (H.single hleft))

end

/-- **Expressions.** With no level left, nothing is read. -/
theorem assignmentAt_yields (room : Nat) : Yields q (H.expression room) (assignmentAt room) := by
  induction room with
  | zero => exact tooDeep_yields
  | succ room ih =>
    have hoperation : Yields q (H.expression (room + 1)) (assignmentWith (assignmentAt room)) := by
      rw [assignmentWith_eq (assignmentAt_settles room)]
      exact H.operationWith_yields ih
    exact hoperation.deeper

/-! ### Statements and functions -/

omit H in
theorem skipSemicolon_yields {p : Tree → Prop} {tree : Tree} (h : p tree) :
    Yields q p (skipSemicolon >>= fun _ => pure tree) := by
  have hskip : Yields q (fun _ => True) skipSemicolon :=
    .option ";" (.pure trivial) (.pure trivial)
  exact hskip.andThen (.pure h)

section

variable {room : Nat} {assignment block : Reading Tree}
  (h : Yields q (H.expression room) assignment)
include h

theorem declarationWith_yields : Yields q (H.element room) (declarationWith assignment) := by
  refine H.identifier_yields.bind fun target htarget => ?_
  have hinit : Yields q (fun init => init = .hole ∨ H.expression room init)
      (initializerWith assignment) := by
    refine Yields.bind .advance fun found _ => ?_
    split
    · split
      · exact fun cursor value after hcursor hvalue =>
          (h cursor value after hcursor hvalue).imp_left .inr
      · exact .pure (.inl rfl)
    · exact .pure (.inl rfl)
  exact hinit.bind fun init hvalue => .pure (H.declaration htarget hvalue)

/-- What is there is an element. -/
theorem statementWith_yields :
    Yields q (fun tree => tree.isHole = true ∨ H.element room tree) (statementWith assignment) := by
  refine Yields.bind .current fun found _ => ?_
  split
  · exact .pure (.inl rfl)
  · exact Yields.andThen .advance <| (H.declarationWith_yields h).bind fun _ hdeclaration =>
      skipSemicolon_yields (.inr hdeclaration)
  · exact Yields.andThen .advance <| h.bind fun _ hargument =>
      skipSemicolon_yields (.inr (H.returnStatement hargument))
  · exact skipSemicolon_yields (.inl rfl)
  · exact h.bind fun _ hexpression =>
      skipSemicolon_yields (.inr (H.expressionStatement hexpression))

theorem elementWith_yields (hblock : Yields q (H.block room) block) :
    Yields q (fun tree => tree.isHole = true ∨ H.element room tree)
      (elementWith assignment block) := by
  have hparams : Yields q (fun params => ∀ param ∈ params, H.label param) params :=
    (Yields.eat "(").andThen (list_yields H.identifier_yields ")")
  refine Yields.bind .current fun found _ => ?_
  split
  · exact .pure (.inl rfl)
  · split
    · exact Yields.andThen .advance <| H.identifier_yields.bind fun _ hname =>
        hparams.bind fun _ hparameters => hblock.bind fun _ hbody =>
          .pure (.inr (H.function hname hparameters hbody))
    · exact H.statementWith_yields h

end

/-- In front of plain tokens all elements of a body are there, up to its brace. -/
theorem elementsUpToBrace_yields {room : Nat} {assignment block : Reading Tree}
    (h : Yields q (fun tree => tree.isHole = true ∨ H.element room tree)
      (elementWith assignment block)) (rounds : Nat) :
    Yields q (fun elements => ∀ tree ∈ elements, H.element room tree)
      (elementsUpToBrace (elementWith assignment block) rounds) := by
  have hnone : ∀ tree ∈ ([] : List Tree), H.element room tree :=
    fun _ htree => absurd htree List.not_mem_nil
  induction rounds with
  | zero => exact .stall
  | succ rounds ih =>
    intro cursor elements after hcursor hresult
    rw [elementsUpToBrace, current_bind] at hresult
    cases hcurrent : cursor.current with
    | none =>
      rw [hcurrent] at hresult
      cases hresult
    | some token =>
      rw [hcurrent] at hresult
      dsimp only at hresult
      split at hresult
      · have hend : Yields q (fun elements => ∀ tree ∈ elements, H.element room tree)
            (Reading.advance >>= fun _ => pure []) := Yields.andThen .advance (.pure hnone)
        exact hend cursor elements after hcursor hresult
      · rw [bind_eq] at hresult
        cases hfirst : elementWith assignment block cursor with
        | error stop middle =>
          rw [hfirst] at hresult
          cases hresult
        | ok first middle =>
          rw [hfirst] at hresult
          -- a hole would be no element, but there is none in front of a token
          have hthere : first.isHole = false :=
            elementWith_there hcurrent (H.words (hcursor token (mem_pending hcurrent))) hfirst
          obtain ⟨hhole | helement, hmiddle⟩ := h cursor first middle hcursor hfirst
          · rw [hthere] at hhole
            cases hhole
          · have hothers : Yields q (fun elements => ∀ tree ∈ elements, H.element room tree)
                (elementsUpToBrace (elementWith assignment block) rounds >>= fun others =>
                  pure (first :: others)) :=
              ih.bind fun _ hothers => .pure (List.forall_mem_cons.2 ⟨helement, hothers⟩)
            exact hothers middle elements after hmiddle hresult

/-- **Function bodies.** -/
theorem bodyAt_yields (room : Nat) : Yields q (H.block room) (bodyAt room) := by
  induction room with
  | zero => exact tooDeep_yields
  | succ room ih =>
    have helement := H.elementWith_yields (H.assignmentAt_yields room) ih
    have hbody : Yields q (H.block (room + 1))
        (bodyWith (elementWith (assignmentAt room) (bodyAt room))) :=
      (Yields.eat "\x7b").andThen <|
        (Yields.rounds (H.elementsUpToBrace_yields helement)).bind fun _ hbody =>
          .pure (H.body hbody)
    exact hbody.deeper

/-- An element of a script: it starts with all levels left, or with fewer if the script is read at a
cursor in the midst of something else. -/
def Top (tree : Tree) : Prop :=
  ∃ room ≤ maxNesting, H.element room tree

theorem element_yields : Yields q (fun tree => tree.isHole = true ∨ H.Top tree) Grammar.element := by
  refine .room fun room hroom cursor tree after hcursor h => ?_
  obtain ⟨htree, hafter⟩ := H.elementWith_yields (H.assignmentAt_yields room) (H.bodyAt_yields room)
    cursor tree after hcursor h
  exact ⟨htree.imp_right fun helement => ⟨room, hroom, helement⟩, hafter⟩

theorem script_yields : Yields q (fun body => ∀ tree ∈ body, H.Top tree) script := by
  have hnone : ∀ tree ∈ ([] : List Tree), H.Top tree := fun _ htree => absurd htree List.not_mem_nil
  refine .rounds fun rounds => ?_
  induction rounds with
  | zero => exact .stall
  | succ rounds ih =>
    refine H.element_yields.bind fun first hfirst => ?_
    split
    · exact .pure hnone
    · next hthere =>
      have htop : H.Top first := hfirst.resolve_left hthere
      refine ih.bind fun _ hothers => ?_
      exact .pure (List.forall_mem_cons.2 ⟨htop, hothers⟩)

/-- **Scripts.** The elements of a text have the property of elements, if its tokens have that of
tokens. -/
theorem readScript {source : String} {file : Option String}
    (htokens : ∀ token ∈ (scan source file).tokens, q token) {body : List Tree}
    (h : readScript source file = .ok body) : ∀ tree ∈ body, H.Top tree := by
  rw [Grammar.readScript, readTokens_eq] at h
  cases hfetch : fetch (scan source file) 0 file with
  | error stop =>
    rw [hfetch] at h
    cases h
  | ok cursor =>
    rw [hfetch] at h
    have hcursor : ∀ token ∈ cursor.pending, q token := by
      rw [(fetch_ok hfetch).2.1]
      exact htokens
    cases hscript : script cursor with
    | error stop after =>
      simp [Except.bind, result, hscript, Except.map] at h
    | ok trees after =>
      obtain rfl : trees = body := by simpa [Except.bind, result, hscript, Except.map] using h
      exact (H.script_yields cursor trees after hcursor hscript).1

end Harvest

end PageScript.Grammar
