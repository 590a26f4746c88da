import PageScript.Proofs.Grammar.Beginning

/-!
# The beginning of a script foretells the whole

Every production reads a beginning as it reads the whole, up to the end of the beginning.

* `Heralds.list`, `Heralds.assignmentAt` — expressions, with whatever levels of nesting are left;
* `Heralds.functionWith`, `Heralds.bodyAt` — functions, which do not end before their closing brace;
* `bodyAt_end` — what a function body makes of the end of the input;
* `Heralds.element`, `Heralds.script` — an element, and all elements up to the end.
-/

namespace PageScript.Grammar

open Reading

variable {α β : Type} {cut : Cut} {closed : Bool}

/-- Where the input ends, a function body asks for its opening brace, unless it is too deep. -/
theorem bodyAt_end (room : Nat) : Quiet true (bodyAt room) ∨ Hopeless (bodyAt room) := by
  cases room with
  | zero => exact .inr .tooDeep
  | succ room => exact .inl ((Quiet.eat "\x7b").halt _).deeper

namespace Heralds

/-! ### Expressions -/

theorem tooDeep : Heralds cut closed (tooDeep : Reading α) := by
  intro tokens _
  cases tokens with
  | nil => exact .lost .tooDeep .tooDeep
  | cons token rest => exact .current_cons (.refuse _)

theorem identifier : Heralds cut false identifier :=
  advance (fun token => by split <;> exact pure _) (.pure _)

theorem primary : Heralds cut false primary :=
  advance (fun token => by split <;> exact pure _) (.pure _)

theorem member : Heralds cut false member :=
  primary.bind (fun _ => option "." (identifier.giving _) (pure _) (.pure _))
    (fun _ => Quiet.ahead (.pure _))

theorem list (close : String) {item : Reading Tree} (hitem : Heralds cut false item)
    (htakes : Takes item) : Heralds cut false (list close item) := by
  apply loop
  · exact fun rounds => Quiet.current (.pure [])
  · intro rounds rounds' token tokens hplain hquiet hmore
    apply Foretells.current_cons
    dsimp only
    by_cases hclose : token.isPunctuator close
    · simp only [hclose, if_true]
      exact skip (pure []) hplain
    · by_cases hcomma : token.isPunctuator ","
      · simp only [hclose, hcomma, if_true, Bool.false_eq_true, if_false]
        exact .advance_cons (hmore tokens (List.suffix_cons token tokens) (Nat.lt_succ_self _))
      · simp only [hclose, hcomma, Bool.false_eq_true, if_false]
        refine (hitem _ hplain).bind (fun first rest hrest hleaves => ?_)
          (fun first => hquiet.bind fun _ => .pure _)
        have hless := hleaves.length_lt htakes (hplain token (List.mem_cons_self ..))
        exact (hmore rest hrest hless).bind (fun others rest _ _ => .pure _) (fun _ => .pure _)

section

variable {nested : Reading Tree} (hnested : Heralds cut false nested) (htakes : Takes nested)
include hnested

include htakes in
theorem calleeWith : Heralds cut false (calleeWith nested) :=
  member.bind (fun _ => option "(" ((list ")" hnested htakes).giving _) (pure _) (.pure _))
    (fun _ => Quiet.ahead (.pure _))

include htakes in
theorem additiveWith : Heralds cut false (additiveWith nested) :=
  (calleeWith hnested htakes).bind
    (fun _ => signed (fun _ => hnested.giving _) (pure _) (.pure _))
    (fun _ => Quiet.current (.pure _))

include htakes in
theorem assignmentWith : Heralds cut false (assignmentWith nested) :=
  (additiveWith hnested htakes).bind
    (fun _ => option "=" (hnested.giving _) (pure _) (.pure _))
    (fun _ => Quiet.ahead (.pure _))

end

theorem assignmentAt (room : Nat) : Heralds cut false (assignmentAt room) := by
  induction room with
  | zero => exact tooDeep
  | succ room ih => exact (assignmentWith ih (Consumes.assignmentAt room).takes).deeper

/-! ### Statements and functions -/

section

variable {assignment : Reading Tree} (h : Heralds cut false assignment)
include h

theorem initializerWith : Heralds cut false (initializerWith assignment) := by
  apply advance
  · intro token
    dsimp only
    split
    · exact h
    · exact pure Tree.hole
  · exact Quiet.pure Tree.hole

theorem declarationWith : Heralds cut false (declarationWith assignment) := by
  have hquiet : ∀ target, Quiet false (Grammar.initializerWith assignment >>= fun init =>
      Pure.pure (Tree.declaration [.declarator target init])) :=
    fun target => Quiet.bind (Quiet.advance (.pure Tree.hole)) fun _ => .pure _
  exact identifier.bind (fun target => (initializerWith h).giving _) hquiet

omit h in
theorem skipSemicolon : Heralds cut false skipSemicolon :=
  option ";" (pure _) (pure _) (.pure _)

omit h in
theorem semicolonAfter (tree : Tree) :
    Heralds cut false (Grammar.skipSemicolon >>= fun _ => Pure.pure tree) :=
  skipSemicolon.giving fun _ => tree

theorem statementWith : Heralds cut false (statementWith assignment) := by
  have hquiet : ∀ tree : Tree, Quiet false (Grammar.skipSemicolon >>= fun _ => Pure.pure tree) :=
    fun tree => Quiet.bind (Quiet.ahead (.pure _)) fun _ => .pure tree
  apply current
  · rintro ⟨lexeme, line⟩ rest hplain
    cases lexeme with
    | keyword word =>
      by_cases hvar : word = "var"
      · subst hvar
        exact skip ((declarationWith h).bind semicolonAfter hquiet) hplain
      · by_cases hreturn : word = "return"
        · subst hreturn
          exact skip (h.bind (fun _ => semicolonAfter _) (fun _ => hquiet _)) hplain
        · simpa [hvar, hreturn] using semicolonAfter .hole _ hplain
    | _ => exact h.bind (fun _ => semicolonAfter _) (fun _ => hquiet _) _ hplain
  · exact Quiet.pure Tree.hole

end

/-- A mark that has to be there. -/
theorem eat (mark : String) : Heralds cut true (eat mark) := by
  rw [eat_eq]
  apply advance
  · intro token
    dsimp only
    split
    · exact pure token
    · exact fun _ _ => .refuse _
  · exact fun _ _ => .inr ⟨mark, rfl⟩

theorem params : Heralds cut false params :=
  (eat "(").andThen fun _ => list ")" identifier (Consumes.takes .identifier)

section

variable {assignment body element : Reading Tree}

/-- A function does not end before its body does. -/
theorem functionWith (hbody : Heralds cut true body) (hend : Quiet true body ∨ Hopeless body) :
    Heralds cut true (functionWith body) := by
  have hparams : ∀ name, Quiet true (Grammar.params >>= fun parameters =>
      body >>= fun block => Pure.pure (Tree.function name parameters block)) :=
    fun _ => Quiet.halt (Quiet.halt (Quiet.eat "(") _) _
  refine identifier.bind (fun name => ?_) hparams
  rcases hend with hquiet | hhopeless
  · exact params.bind (fun _ => hbody.giving _) fun _ => hquiet.halt _
  · exact params.doom (fun _ => hbody.giving _) fun _ => hhopeless.halt _

theorem elementWith (h : Heralds cut false assignment) (hbody : Heralds cut true body)
    (hend : Quiet true body ∨ Hopeless body) : Heralds cut false (elementWith assignment body) := by
  apply current
  · intro token rest hplain
    dsimp only
    split
    · exact skip (functionWith hbody hend).opened hplain
    · exact statementWith h _ hplain
  · exact Quiet.pure Tree.hole

/-- Elements up to a closing brace do not end before it. -/
theorem elementsUpToBrace (h : Heralds cut false element) (htakes : Takes element) :
    Heralds cut true (fun cursor =>
      Grammar.elementsUpToBrace element (cursor.pending.length + 1) cursor) := by
  apply loop
  · exact fun rounds _ _ => .inr ⟨"\x7d", rfl⟩
  · intro rounds rounds' token tokens hplain hquiet hmore
    apply Foretells.current_cons
    dsimp only
    by_cases hclose : token.isPunctuator "\x7d"
    · simp only [hclose, if_true]
      exact skip (pure []) hplain
    · simp only [hclose, Bool.false_eq_true, if_false]
      refine (h _ hplain).bind (fun first rest hrest hleaves => ?_) fun first => hquiet.halt _
      have hless := hleaves.length_lt htakes (hplain token (List.mem_cons_self ..))
      exact (hmore rest hrest hless).bindAtEnd (fun others rest _ _ => .pure _)
        fun hopen => absurd hopen (by simp)

theorem bodyWith (h : Heralds cut false element) (htakes : Takes element) :
    Heralds cut true (bodyWith element) :=
  (eat "\x7b").andThen fun _ => (elementsUpToBrace h htakes).giving _

end

/-- A function body ends with its closing brace, however many levels are left. -/
theorem bodyAt (room : Nat) : Heralds cut true (bodyAt room) := by
  induction room with
  | zero => exact tooDeep
  | succ room ih =>
    have helement := elementWith (assignmentAt room) ih (bodyAt_end room)
    exact (bodyWith helement (.elementAt room)).deeper

theorem element : Heralds cut false element :=
  room fun room => elementWith (assignmentAt room) (bodyAt room) (bodyAt_end room)

/-- **A whole script.** What becomes of a beginning of it foretells what becomes of all of it. -/
theorem script : Heralds cut false script := by
  apply loop
  · exact fun rounds depth file => .inl ⟨rfl, [], rfl⟩
  · intro rounds rounds' token tokens hplain hquiet hmore
    have htoken : token.IsPlain := hplain token (List.mem_cons_self ..)
    refine (element _ hplain).bind (fun first rest hrest hleaves => ?_) fun first => ?_
    · have hless := hleaves.length_lt .element htoken
      rw [hleaves.element_there htoken]
      exact (hmore rest hrest hless).bind (fun others rest _ _ => .pure _) fun _ => .pure _
    · cases first.isHole with
      | true => exact .pure []
      | false => exact hquiet.bind fun _ => .pure _

end Heralds

end PageScript.Grammar
