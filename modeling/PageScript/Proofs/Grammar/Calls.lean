import PageScript.Proofs.Grammar.Progress

/-!
# Calls of the productions

Whoever reads tokens through the productions, in whatever order and whatever becomes of them, gets
every token once and in its place, with exactly one token ahead.

* `Cursor.Advances` — a cursor has consumed tokens, one at a time, and fetched one for each of them;
* `InStep`, `inStep` — every production moves its cursor like that, however it ends;
* `Eager` — a reading that takes a token wherever there is one, even if it fails;
* `Call`, `Routine` — all that can be done to a cursor with its moves and with the productions;
* `Routine.inStep_run` — every routine goes token by token;
* `calls_in_order` — what is consumed, ahead and still to be fetched after any number of calls.
-/

namespace PageScript

namespace Cursor

/-- The cursor behind its token, with the next one ahead. -/
def onward (cursor : Cursor) : Cursor :=
  { cursor with
    current := cursor.ahead.tokens.head?
    ahead := ⟨cursor.ahead.tokens.tail, cursor.ahead.failure⟩ }

/-- The tokens that have been consumed between two cursors. Each was the one ahead when its turn
came, and the next one was fetched in its place. -/
inductive Advances : Cursor → List Token → Cursor → Prop
  | stay (cursor : Cursor) : cursor.Advances [] cursor
  | step {cursor after : Cursor} {token : Token} {consumed : List Token}
      (h : cursor.current = some token) (rest : cursor.onward.Advances consumed after) :
      cursor.Advances (token :: consumed) after

/-- A cursor over nothing but tokens: one of them is ahead until all are consumed. -/
structure Primed (cursor : Cursor) : Prop where
  failure : cursor.ahead.failure = none
  last : cursor.current = none → cursor.ahead.tokens = []

theorem Primed.onward {cursor : Cursor} (h : cursor.Primed) : cursor.onward.Primed where
  failure := h.failure
  last hnone := by
    show cursor.ahead.tokens.tail = []
    rw [List.head?_eq_none_iff.1 hnone]
    rfl

namespace Advances

variable {a b c : Cursor} {consumed others : List Token}

theorem trans (hab : a.Advances consumed b) (hbc : b.Advances others c) :
    a.Advances (consumed ++ others) c := by
  induction hab with
  | stay => exact hbc
  | step h _ ih => exact .step h (ih hbc)

theorem primed (h : a.Advances consumed b) (ha : a.Primed) : b.Primed := by
  induction h with
  | stay => exact ha
  | step _ _ ih => exact ih ha.onward

theorem depth_eq (h : a.Advances consumed b) : b.depth = a.depth := by
  induction h with
  | stay => rfl
  | step _ _ ih => exact ih

/-- Nothing is lost on the way, and nothing comes back. -/
theorem pending_eq (h : a.Advances consumed b) : a.pending = consumed ++ b.pending := by
  induction h with
  | stay => rfl
  | @step cursor after token consumed hcurrent _ ih =>
    have hahead : cursor.onward.pending = cursor.ahead.tokens := by
      unfold pending onward
      cases cursor.ahead.tokens <;> rfl
    rw [List.cons_append, ← ih, hahead, pending, hcurrent]
    rfl

/-- The level does not matter to the tokens. -/
theorem at_depth (h : a.Advances consumed b) (depth : Nat) :
    ({ a with depth } : Cursor).Advances consumed { b with depth } := by
  induction h with
  | stay => exact .stay _
  | step hcurrent _ ih => exact .step hcurrent ih

end Advances

end Cursor

namespace Grammar

open Reading

variable {α β : Type}

/-! ### One token at a time -/

/-- A reading that consumes the tokens one at a time, however it ends. -/
def InStep (x : Reading α) : Prop :=
  ∀ cursor : Cursor, cursor.Primed → ∃ consumed, cursor.Advances consumed (final (x cursor))

theorem advance_of_some {cursor : Cursor} {token : Token} (h : cursor.Primed)
    (hcurrent : cursor.current = some token) : advance cursor = .ok (some token) cursor.onward := by
  obtain ⟨current, ⟨tokens, failure⟩, depth, file⟩ := cursor
  obtain rfl : current = some token := hcurrent
  obtain rfl : failure = none := h.failure
  cases tokens <;> rfl

theorem advance_of_none {cursor : Cursor} (hcurrent : cursor.current = none) :
    advance cursor = .ok none cursor := by
  unfold advance
  rw [hcurrent]

/-- A reading that leaves its cursor where it is. -/
theorem InStep.rest {x : Reading α} (h : ∀ cursor, final (x cursor) = cursor) : InStep x := by
  intro cursor _
  rw [h]
  exact ⟨[], .stay cursor⟩

theorem InStep.bind {x : Reading α} {f : α → Reading β} (hx : InStep x)
    (hf : ∀ value, InStep (f value)) : InStep (x >>= f) := by
  intro cursor hprimed
  obtain ⟨consumed, hfirst⟩ := hx cursor hprimed
  rw [bind_eq]
  cases hresult : x cursor with
  | ok value middle =>
    rw [hresult] at hfirst
    obtain ⟨others, hrest⟩ := hf value middle (hfirst.primed hprimed)
    exact ⟨consumed ++ others, hfirst.trans hrest⟩
  | error stop middle =>
    rw [hresult] at hfirst
    exact ⟨consumed, hfirst⟩

theorem InStep.advance : InStep advance := by
  intro cursor hprimed
  cases hcurrent : cursor.current with
  | none =>
    rw [advance_of_none hcurrent]
    exact ⟨[], .stay cursor⟩
  | some token =>
    rw [advance_of_some hprimed hcurrent]
    exact ⟨[token], .step hcurrent (.stay _)⟩

theorem final_deeper (x : Reading α) (cursor : Cursor) :
    final (deeper x cursor) =
      { final (x { cursor with depth := cursor.depth + 1 }) with
        depth := (final (x { cursor with depth := cursor.depth + 1 })).depth - 1 } := by
  unfold deeper
  cases x { cursor with depth := cursor.depth + 1 } <;> rfl

theorem InStep.deeper {x : Reading α} (hx : InStep x) : InStep (deeper x) := by
  intro cursor hprimed
  obtain ⟨consumed, h⟩ := hx { cursor with depth := cursor.depth + 1 } ⟨hprimed.1, hprimed.2⟩
  refine ⟨consumed, ?_⟩
  rw [final_deeper, h.depth_eq]
  exact h.at_depth cursor.depth

/-- **Every production goes token by token,** since all of its moves do. -/
def inStep : Correspondence where
  Alike := forward.Alike
  Rel x y := x = y ∧ InStep x
  lexeme := @forward.lexeme
  pure value := ⟨rfl, .rest fun _ => rfl⟩
  bind hx hf := ⟨by rw [hx.1, funext fun value => (hf value).1], hx.2.bind fun value => (hf value).2⟩
  current hf := ⟨by rw [funext fun token => (hf token token rfl).1],
    InStep.bind (.rest fun _ => rfl) fun token => (hf token token rfl).2⟩
  advance hf := ⟨by rw [funext fun token => (hf token token rfl).1],
    InStep.bind .advance fun token => (hf token token rfl).2⟩
  expected mark _ _ h := ⟨by rw [h], .rest fun _ => rfl⟩
  nesting limit _ _ h := ⟨by rw [h], .rest fun _ => rfl⟩
  stall := ⟨rfl, .rest fun _ => rfl⟩
  deeper hx := ⟨by rw [hx.1], hx.2.deeper⟩
  rounds hf := ⟨by rw [funext fun rounds => (hf rounds).1],
    fun cursor => (hf (cursor.pending.length + 1)).2 cursor⟩
  room hf := ⟨by rw [funext fun room => (hf room).1],
    fun cursor => (hf (maxNesting - cursor.depth)).2 cursor⟩

/-! ### Taking the token ahead -/

/-- A reading takes at least one token here. -/
def Spends (x : Reading α) (cursor : Cursor) : Prop :=
  ∃ token consumed, cursor.Advances (token :: consumed) (final (x cursor))

/-- A reading in step that takes a token wherever there is one, even if it fails. -/
structure Eager (x : Reading α) : Prop where
  steps : InStep x
  spends (cursor : Cursor) : cursor.Primed → cursor.current.isSome → Spends x cursor

theorem Eager.advance : Eager advance where
  steps := .advance
  spends cursor hprimed hsome := by
    obtain ⟨token, hcurrent⟩ := Option.isSome_iff_exists.1 hsome
    refine ⟨token, [], ?_⟩
    rw [advance_of_some hprimed hcurrent]
    exact .step hcurrent (.stay _)

/-- What the first reading has taken stays taken. -/
theorem Eager.bind {x : Reading α} {f : α → Reading β} (hx : Eager x)
    (hf : ∀ value, InStep (f value)) : Eager (x >>= f) where
  steps := hx.steps.bind hf
  spends cursor hprimed hsome := by
    obtain ⟨token, consumed, hfirst⟩ := hx.spends cursor hprimed hsome
    unfold Spends
    rw [bind_eq]
    cases hresult : x cursor with
    | ok value middle =>
      rw [hresult] at hfirst
      obtain ⟨others, hrest⟩ := hf value middle (hfirst.primed hprimed)
      exact ⟨token, consumed ++ others, hfirst.trans hrest⟩
    | error stop middle =>
      rw [hresult] at hfirst
      exact ⟨token, consumed, hfirst⟩

theorem Eager.deeper {x : Reading α} (hx : Eager x) : Eager (deeper x) where
  steps := hx.steps.deeper
  spends cursor hprimed hsome := by
    obtain ⟨token, consumed, h⟩ :=
      hx.spends { cursor with depth := cursor.depth + 1 } ⟨hprimed.1, hprimed.2⟩ hsome
    refine ⟨token, consumed, ?_⟩
    rw [final_deeper, h.depth_eq]
    exact h.at_depth cursor.depth

theorem Eager.eat (mark : String) : Eager (eat mark) :=
  Eager.bind .advance fun token => by
    cases token with
    | none => exact .rest fun _ => rfl
    | some token =>
      refine .rest fun cursor => ?_
      dsimp only
      split <;> rfl

theorem Eager.identifier : Eager identifier :=
  Eager.bind .advance fun token => by
    split <;> exact .rest fun _ => rfl

theorem Eager.primary : Eager primary :=
  Eager.bind .advance fun token => by
    split <;> exact .rest fun _ => rfl

section

variable {nested : Reading Tree}

theorem Eager.initializerWith (h : InStep nested) : Eager (initializerWith nested) :=
  Eager.bind .advance fun token => by
    cases token with
    | none => exact .rest fun _ => rfl
    | some token =>
      dsimp only
      split
      · exact h
      · exact .rest fun _ => rfl

theorem Eager.assignmentWith (h : InStep nested) : Eager (assignmentWith nested) := by
  have hmember : Eager member := Eager.bind .primary fun _ =>
    (inStep.option "." (inStep.bind inStep.identifier fun _ => inStep.pure _) (inStep.pure _)).2
  have hcallee : Eager (calleeWith nested) := hmember.bind fun _ =>
    (inStep.option "(" (inStep.bind (inStep.list ")" ⟨rfl, h⟩) fun _ => inStep.pure _)
      (inStep.pure _)).2
  have hadditive : Eager (additiveWith nested) := hcallee.bind fun _ =>
    (inStep.signed (fun _ => inStep.bind ⟨rfl, h⟩ fun _ => inStep.pure _) (inStep.pure _)).2
  exact hadditive.bind fun _ =>
    (inStep.option "=" (inStep.bind ⟨rfl, h⟩ fun _ => inStep.pure _) (inStep.pure _)).2

end

theorem spends_initializer {cursor : Cursor} (h : cursor.Primed) (hsome : cursor.current.isSome) :
    Spends initializer cursor :=
  (Eager.initializerWith (inStep.assignmentAt _).2).spends cursor h hsome

/-- An assignment takes a token, unless it is one level too deep. It fails then, and takes none. -/
theorem spends_assignment {cursor : Cursor} (h : cursor.Primed) (hsome : cursor.current.isSome) :
    Spends assignment cursor ∨
      assignment cursor =
        .error (.failed (.structural (.nesting maxNesting cursor.current) cursor.file)) cursor := by
  unfold Spends assignment withRoom
  cases maxNesting - cursor.depth with
  | zero => exact .inr rfl
  | succ room =>
    exact .inl ((Eager.assignmentWith (inStep.assignmentAt room).2).deeper.spends cursor h hsome)

/-! ### All that can be called -/

/-- The moves of a cursor and the productions of the grammar. -/
inductive Call : Type → Type where
  | advance : Call (Option Token)
  | atPunctuator (mark : String) : Call Bool
  | eat (mark : String) : Call Token
  | assignment : Call Tree
  | additive : Call Tree
  | callee : Call Tree
  | arguments : Call (List Tree)
  | member : Call Tree
  | primary : Call Tree
  | identifier : Call Tree
  | element : Call Tree
  | statement : Call Tree
  | declaration : Call Tree
  | initializer : Call Tree
  | function : Call Tree
  | params : Call (List Tree)
  | body : Call Tree
  | script : Call (List Tree)

def Call.run : Call α → Reading α
  | .advance => Reading.advance
  | .atPunctuator mark => Reading.atPunctuator mark
  | .eat mark => Reading.eat mark
  | .assignment => Grammar.assignment
  | .additive => Grammar.additive
  | .callee => Grammar.callee
  | .arguments => Grammar.arguments
  | .member => Grammar.member
  | .primary => Grammar.primary
  | .identifier => Grammar.identifier
  | .element => Grammar.element
  | .statement => Grammar.statement
  | .declaration => Grammar.declaration
  | .initializer => Grammar.initializer
  | .function => Grammar.function
  | .params => Grammar.params
  | .body => Grammar.body
  | .script => Grammar.script

/-- A reading one level deeper, with the given number of levels left. -/
def nestedAt (inner : Reading α) : (room : Nat) → Reading α
  | 0 => tooDeep
  | _ + 1 => deeper inner

/-- A reading one level deeper, if that is not one level too many. -/
def nested (inner : Reading α) : Reading α := withRoom (nestedAt inner)

/-- A reading whose failure is a value. One that has stalled has no value at all. -/
def attempt (inner : Reading α) : Reading (Except Failure α) := fun cursor =>
  match inner cursor with
  | .ok value after => .ok (.ok value) after
  | .error (.failed failure) after => .ok (.error failure) after
  | .error .stalled after => .error .stalled after

/-- Calls in sequence. Which call is next may depend on the token ahead and on what the calls before
have given or failed with. A routine may itself be called one level deeper. -/
inductive Routine : Type → Type 1 where
  | done {α : Type} (value : α) : Routine α
  | current : Routine (Option Token)
  | call {α : Type} (production : Call α) : Routine α
  | next {α β : Type} (first : Routine α) (rest : α → Routine β) : Routine β
  | nested {α : Type} (inner : Routine α) : Routine α
  | attempt {α : Type} (inner : Routine α) : Routine (Except Failure α)

def Routine.run {α : Type} : Routine α → Reading α
  | .done value => pure value
  | .current => Reading.current
  | .call production => production.run
  | .next first rest => first.run >>= fun value => (rest value).run
  | .nested inner => Grammar.nested inner.run
  | .attempt inner => Grammar.attempt inner.run

/-- The cursor after several routines, one after the other, whichever way they end. -/
def reached (start : Cursor) (routines : List (Routine Unit)) : Cursor :=
  routines.foldl (fun cursor routine => final (routine.run cursor)) start

theorem Call.inStep_run (call : Call α) : InStep call.run := by
  cases call with
  | advance => exact .advance
  | atPunctuator mark => exact .rest fun _ => rfl
  | eat mark => exact (Eager.eat mark).steps
  | assignment => exact (inStep.room inStep.assignmentAt).2
  | additive => exact (inStep.room fun room => inStep.additiveWith (inStep.assignmentAt room)).2
  | callee => exact (inStep.room fun room => inStep.calleeWith (inStep.assignmentAt room)).2
  | arguments => exact (inStep.room fun room => inStep.list ")" (inStep.assignmentAt room)).2
  | member => exact inStep.member.2
  | primary => exact inStep.primary.2
  | identifier => exact inStep.identifier.2
  | element => exact inStep.element.2
  | statement => exact (inStep.room fun room => inStep.statementWith (inStep.assignmentAt room)).2
  | declaration =>
    exact (inStep.room fun room => inStep.declarationWith (inStep.assignmentAt room)).2
  | initializer =>
    exact (inStep.room fun room => inStep.initializerWith (inStep.assignmentAt room)).2
  | function => exact (inStep.room fun room => inStep.functionWith (inStep.bodyAt room)).2
  | params => exact inStep.params.2
  | body => exact (inStep.room inStep.bodyAt).2
  | script => exact inStep.script.2

theorem InStep.nested {inner : Reading α} (h : InStep inner) : InStep (nested inner) :=
  have hroom : ∀ room, inStep.Rel (nestedAt inner room) (nestedAt inner room) := fun
    | 0 => inStep.tooDeep
    | _ + 1 => inStep.deeper ⟨rfl, h⟩
  (inStep.room hroom).2

theorem InStep.attempt {inner : Reading α} (h : InStep inner) : InStep (attempt inner) := by
  intro cursor hprimed
  have hsame : final (Grammar.attempt inner cursor) = final (inner cursor) := by
    unfold Grammar.attempt
    cases inner cursor with
    | ok value after => rfl
    | error stop after => cases stop <;> rfl
  rw [hsame]
  exact h cursor hprimed

/-- **Every routine goes token by token.** -/
theorem Routine.inStep_run {α : Type} (routine : Routine α) : InStep routine.run := by
  induction routine with
  | done value => exact .rest fun _ => rfl
  | current => exact .rest fun _ => rfl
  | call production => exact production.inStep_run
  | next first rest hfirst hrest => exact hfirst.bind hrest
  | nested inner ih => exact ih.nested
  | attempt inner ih => exact ih.attempt

theorem advances_reached (routines : List (Routine Unit)) {start : Cursor} (h : start.Primed) :
    ∃ consumed, start.Advances consumed (reached start routines) := by
  induction routines generalizing start with
  | nil => exact ⟨[], .stay start⟩
  | cons routine routines ih =>
    obtain ⟨consumed, hfirst⟩ := routine.inStep_run start h
    obtain ⟨others, hrest⟩ := ih (hfirst.primed h)
    exact ⟨consumed ++ others, hfirst.trans hrest⟩

/-- **No token is skipped and none is seen twice.** After any calls the tokens consumed, the token
ahead and those not yet fetched are the tokens of the stream, in their order. The levels have been
left, and one more token has been fetched than consumed until the stream ends. Wherever a token is
ahead, the calls that have to take it do so, and only an assignment that is too deep takes none. -/
theorem calls_in_order (tokens : List Token) (file : Option String)
    (routines : List (Routine Unit)) :
    (∃ start, Cursor.start (.ofTokens tokens) file = .ok start ∧
      ∃ consumed fetched, start.Advances consumed (reached start routines) ∧
        (reached start routines).depth = 0 ∧ (reached start routines).Primed ∧
        consumed ++ (reached start routines).current.toList ++
          (reached start routines).ahead.tokens = tokens ∧
        fetched ++ (reached start routines).ahead.tokens = tokens ∧
        fetched.length = consumed.length + (reached start routines).current.toList.length) ∧
    ∀ cursor : Cursor, cursor.Primed → cursor.current.isSome →
      (∀ mark : String, Spends (Call.eat mark).run cursor) ∧ Spends Call.identifier.run cursor ∧
      Spends Call.primary.run cursor ∧ Spends Call.initializer.run cursor ∧
      (Spends Call.assignment.run cursor ∨ Call.assignment.run cursor =
        .error (.failed (.structural (.nesting maxNesting cursor.current) cursor.file)) cursor) := by
  refine ⟨?_, fun cursor hprimed hsome =>
    ⟨fun mark => (Eager.eat mark).spends cursor hprimed hsome,
      Eager.identifier.spends cursor hprimed hsome, Eager.primary.spends cursor hprimed hsome,
      spends_initializer hprimed hsome, spends_assignment hprimed hsome⟩⟩
  obtain ⟨start, hstart, hprimed, hdepth, hpending⟩ : ∃ start,
      Cursor.start (.ofTokens tokens) file = .ok start ∧ start.Primed ∧ start.depth = 0 ∧
        start.pending = tokens := by
    cases tokens with
    | nil => exact ⟨_, rfl, ⟨rfl, fun _ => rfl⟩, rfl, rfl⟩
    | cons token tokens =>
      exact ⟨_, rfl, ⟨rfl, fun hnone => absurd hnone (Option.some_ne_none token)⟩, rfl, rfl⟩
  obtain ⟨consumed, h⟩ := advances_reached routines hprimed
  have hall : consumed ++ (reached start routines).pending = tokens :=
    h.pending_eq.symm.trans hpending
  refine ⟨start, hstart, consumed, consumed ++ (reached start routines).current.toList, h,
    h.depth_eq.trans hdepth, h.primed hprimed, ?_, ?_, List.length_append⟩
  all_goals rwa [List.append_assoc]

/-- The tokens of a call that is not closed. -/
def openCall : List Token :=
  [⟨.identifier "f", 1⟩, ⟨.punctuator "(", 1⟩, ⟨.identifier "x", 1⟩]

/-- Eating a bracket where there is none fails, but takes the token that is there. -/
theorem calls_in_order_openCall :
    ∃ start, Cursor.start (.ofTokens openCall) none = .ok start ∧ start.Primed ∧
      start.current.isSome ∧ Spends (Call.eat "(").run start := by
  have hprimed : (⟨some ⟨.identifier "f", 1⟩, ⟨openCall.tail, none⟩, 0, none⟩ : Cursor).Primed :=
    ⟨rfl, fun hnone => absurd hnone (Option.some_ne_none _)⟩
  exact ⟨_, rfl, hprimed, rfl, ((calls_in_order openCall none []).2 _ hprimed rfl).1 "("⟩

end Grammar

end PageScript
