import PageScript.Grammar.Script

/-!
# Relations that reading respects

What a reading does to its cursor, and how it reads one text compared with another, is settled by
its moves alone. The walk through the productions is taken here once, for any relation between
readings.

* `Correspondence` — a relation between readings that the moves, their sequencing and the nesting
  respect;
* `Correspondence.assignmentAt`, `Correspondence.bodyAt` — such a relation holds between the
  readings of a production that nests, at every level;
* `Correspondence.element`, `Correspondence.script` — hence it holds for elements and whole scripts.

The tokens that two corresponding readings see say the same, but may stand on different lines.
-/

namespace PageScript.Grammar

open Reading

/-- A relation between readings that is kept by everything the productions are built from. -/
structure Correspondence where
  /-- Which tokens may be ahead in two corresponding readings. -/
  Alike : Option Token → Option Token → Prop
  /-- Which readings correspond. -/
  Rel : {α : Type} → Reading α → Reading α → Prop
  lexeme {a b : Option Token} : Alike a b → a.map (·.lexeme) = b.map (·.lexeme)
  pure {α : Type} (value : α) : Rel (Pure.pure value) (Pure.pure value)
  bind {α β : Type} {x y : Reading α} {f g : α → Reading β} :
    Rel x y → (∀ value, Rel (f value) (g value)) → Rel (x >>= f) (y >>= g)
  current {β : Type} {f g : Option Token → Reading β} :
    (∀ a b, Alike a b → Rel (f a) (g b)) → Rel (Reading.current >>= f) (Reading.current >>= g)
  advance {β : Type} {f g : Option Token → Reading β} :
    (∀ a b, Alike a b → Rel (f a) (g b)) → Rel (Reading.advance >>= f) (Reading.advance >>= g)
  expected {α : Type} (mark : String) {a b : Option Token} : Alike a b →
    Rel (refuse (.expected mark a) : Reading α) (refuse (.expected mark b))
  nesting {α : Type} (limit : Int) {a b : Option Token} : Alike a b →
    Rel (refuse (.nesting limit a) : Reading α) (refuse (.nesting limit b))
  stall {α : Type} : Rel (throw .stalled : Reading α) (throw .stalled)
  deeper {α : Type} {x y : Reading α} : Rel x y → Rel (Reading.deeper x) (Reading.deeper y)
  rounds {α : Type} {f g : Nat → Reading α} : (∀ rounds, Rel (f rounds) (g rounds)) →
    Rel (fun cursor => f (cursor.pending.length + 1) cursor)
      (fun cursor => g (cursor.pending.length + 1) cursor)
  room {α : Type} {f g : Nat → Reading α} : (∀ room, Rel (f room) (g room)) →
    Rel (withRoom f) (withRoom g)

/-! ### Looking at the token ahead -/

theorem atPunctuator_eq (mark : String) :
    atPunctuator mark = (current >>= fun token => pure (token.any (·.isPunctuator mark))) := rfl

theorem eat_eq (mark : String) :
    eat mark = (advance >>= fun
      | none => refuse (.expected mark none)
      | some token =>
        if token.isPunctuator mark then pure token else refuse (.expected mark token)) := rfl

namespace Correspondence

variable (C : Correspondence) {α : Type}

/-- Two tokens ahead that correspond are both missing or say the same. -/
theorem alike_cases {a b : Option Token} (h : C.Alike a b) :
    (a = none ∧ b = none) ∨
      ∃ lexeme line line', a = some ⟨lexeme, line⟩ ∧ b = some ⟨lexeme, line'⟩ := by
  have hlexeme := C.lexeme h
  rcases a with _ | ⟨lexeme, line⟩ <;> rcases b with _ | ⟨lexeme', line'⟩
  · exact .inl ⟨rfl, rfl⟩
  · exact absurd hlexeme (by simp)
  · exact absurd hlexeme (by simp)
  · obtain rfl : lexeme = lexeme' := Option.some.inj hlexeme
    exact .inr ⟨lexeme, line, line', rfl, rfl⟩

theorem skip {β : Type} {x y : Reading β} (h : C.Rel x y) :
    C.Rel (Reading.advance >>= fun _ => x) (Reading.advance >>= fun _ => y) :=
  C.advance fun _ _ _ => h

/-- A production that goes on according to whether a mark is ahead. -/
theorem ahead (mark : String) {β : Type} {f g : Bool → Reading β}
    (h : ∀ found, C.Rel (f found) (g found)) :
    C.Rel (atPunctuator mark >>= f) (atPunctuator mark >>= g) := by
  rw [atPunctuator_eq]
  refine C.bind (C.current fun a b hab => ?_) h
  rcases C.alike_cases hab with ⟨rfl, rfl⟩ | ⟨lexeme, line, line', rfl, rfl⟩
  · exact C.pure _
  · exact C.pure _

/-- A part that is read behind a mark, and only there. -/
theorem option (mark : String) {β : Type} {x y other other' : Reading β} (h : C.Rel x y)
    (hother : C.Rel other other') :
    C.Rel (atPunctuator mark >>= fun found =>
        if found then Reading.advance >>= fun _ => x else other)
      (atPunctuator mark >>= fun found =>
        if found then Reading.advance >>= fun _ => y else other') := by
  apply C.ahead mark
  intro found
  cases found with
  | true => exact C.skip h
  | false => exact hother

/-- What follows a mark that has to be there. The mark itself is of no further use. -/
theorem eat (mark : String) {β : Type} {x y : Reading β} (h : C.Rel x y) :
    C.Rel (Reading.eat mark >>= fun _ => x) (Reading.eat mark >>= fun _ => y) := by
  simp only [eat_eq, bind_assoc]
  apply C.advance
  intro a b hab
  rcases C.alike_cases hab with ⟨rfl, rfl⟩ | ⟨lexeme, line, line', rfl, rfl⟩
  · exact C.bind (C.expected mark hab) fun _ => h
  · by_cases hmark : lexeme = .punctuator mark
    · simpa [Token.isPunctuator, hmark] using h
    · simpa [Token.isPunctuator, hmark] using C.bind (C.expected mark hab) fun _ : Token => h

/-! ### Expressions -/

theorem tooDeep : C.Rel (tooDeep : Reading α) Grammar.tooDeep :=
  C.current fun _ _ hab => C.nesting maxNesting hab

theorem identifier : C.Rel identifier Grammar.identifier := by
  apply C.advance
  intro a b hab
  rcases C.alike_cases hab with ⟨rfl, rfl⟩ | ⟨lexeme, line, line', rfl, rfl⟩
  · exact C.pure _
  · cases lexeme <;> exact C.pure _

theorem primary : C.Rel primary Grammar.primary := by
  apply C.advance
  intro a b hab
  rcases C.alike_cases hab with ⟨rfl, rfl⟩ | ⟨lexeme, line, line', rfl, rfl⟩
  · exact C.pure _
  · cases lexeme <;> exact C.pure _

theorem member : C.Rel member Grammar.member :=
  C.bind C.primary fun _ => C.option "." (C.bind C.identifier fun _ => C.pure _) (C.pure _)

variable {nested nested' : Reading Tree}

theorem listUpTo (close : String) (hitem : C.Rel nested nested') (rounds : Nat) :
    C.Rel (listUpTo close nested rounds) (Grammar.listUpTo close nested' rounds) := by
  induction rounds with
  | zero => exact C.stall
  | succ rounds ih =>
    apply C.current
    intro a b hab
    rcases C.alike_cases hab with ⟨rfl, rfl⟩ | ⟨lexeme, line, line', rfl, rfl⟩
    · exact C.pure _
    · by_cases hclose : lexeme = .punctuator close
      · simpa [Token.isPunctuator, hclose] using C.skip (C.pure _)
      · by_cases hcomma : lexeme = .punctuator ","
        · rw [hcomma] at hclose
          simpa [Token.isPunctuator, hclose, hcomma] using C.skip ih
        · simpa [Token.isPunctuator, hclose, hcomma] using
            C.bind hitem fun first => C.bind ih fun others => C.pure _

theorem list (close : String) (hitem : C.Rel nested nested') :
    C.Rel (list close nested) (Grammar.list close nested') :=
  C.rounds fun rounds => C.listUpTo close hitem rounds

theorem calleeWith (h : C.Rel nested nested') :
    C.Rel (calleeWith nested) (Grammar.calleeWith nested') :=
  C.bind C.member fun _ =>
    C.option "(" (C.bind (C.list ")" h) fun _ => C.pure _) (C.pure _)

/-- A part that is read behind a sign, and only there. -/
theorem signed {β : Type} {f g : Operator → Reading β} {other other' : Reading β}
    (h : ∀ operator, C.Rel (f operator) (g operator)) (hother : C.Rel other other') :
    C.Rel (Reading.current >>= fun token =>
        match token.bind additiveOperator? with
        | some operator => Reading.advance >>= fun _ => f operator
        | none => other)
      (Reading.current >>= fun token =>
        match token.bind additiveOperator? with
        | some operator => Reading.advance >>= fun _ => g operator
        | none => other') := by
  apply C.current
  intro a b hab
  have hoperator : a.bind additiveOperator? = b.bind additiveOperator? := by
    rcases C.alike_cases hab with ⟨rfl, rfl⟩ | ⟨lexeme, line, line', rfl, rfl⟩ <;> rfl
  rw [hoperator]
  cases b.bind additiveOperator? with
  | some operator => exact C.skip (h operator)
  | none => exact hother

theorem additiveWith (h : C.Rel nested nested') :
    C.Rel (additiveWith nested) (Grammar.additiveWith nested') :=
  C.bind (C.calleeWith h) fun _ => C.signed (fun _ => C.bind h fun _ => C.pure _) (C.pure _)

theorem assignmentWith (h : C.Rel nested nested') :
    C.Rel (assignmentWith nested) (Grammar.assignmentWith nested') :=
  C.bind (C.additiveWith h) fun _ => C.option "=" (C.bind h fun _ => C.pure _) (C.pure _)

/-- An assignment corresponds to itself, however many levels are left. -/
theorem assignmentAt (room : Nat) : C.Rel (assignmentAt room) (Grammar.assignmentAt room) := by
  induction room with
  | zero => exact C.tooDeep
  | succ room ih => exact C.deeper (C.assignmentWith ih)

/-! ### Statements and functions -/

theorem initializerWith (h : C.Rel nested nested') :
    C.Rel (initializerWith nested) (Grammar.initializerWith nested') := by
  apply C.advance
  intro a b hab
  rcases C.alike_cases hab with ⟨rfl, rfl⟩ | ⟨lexeme, line, line', rfl, rfl⟩
  · exact C.pure _
  · by_cases hmark : lexeme = .punctuator "="
    · simpa [Token.isPunctuator, hmark] using h
    · simpa [Token.isPunctuator, hmark] using C.pure Tree.hole

theorem declarationWith (h : C.Rel nested nested') :
    C.Rel (declarationWith nested) (Grammar.declarationWith nested') :=
  C.bind C.identifier fun _ => C.bind (C.initializerWith h) fun _ => C.pure _

theorem skipSemicolon : C.Rel skipSemicolon Grammar.skipSemicolon :=
  C.option ";" (C.pure _) (C.pure _)

theorem statementWith (h : C.Rel nested nested') :
    C.Rel (statementWith nested) (Grammar.statementWith nested') := by
  have hend : ∀ tree : Tree, C.Rel (Grammar.skipSemicolon >>= fun _ => Pure.pure tree)
      (Grammar.skipSemicolon >>= fun _ => Pure.pure tree) := fun tree =>
    C.bind C.skipSemicolon fun _ => C.pure tree
  apply C.current
  intro a b hab
  rcases C.alike_cases hab with ⟨rfl, rfl⟩ | ⟨lexeme, line, line', rfl, rfl⟩
  · exact C.pure _
  · cases lexeme with
    | keyword word =>
      by_cases hvar : word = "var"
      · subst hvar
        exact C.skip (C.bind (C.declarationWith h) hend)
      · by_cases hreturn : word = "return"
        · subst hreturn
          exact C.skip (C.bind h fun _ => hend _)
        · simpa [hvar, hreturn] using hend .hole
    | _ => exact C.bind h fun _ => hend _

theorem params : C.Rel params Grammar.params :=
  C.eat "(" (C.list ")" C.identifier)

theorem functionWith (h : C.Rel nested nested') :
    C.Rel (functionWith nested) (Grammar.functionWith nested') :=
  C.bind C.identifier fun _ => C.bind C.params fun _ => C.bind h fun _ => C.pure _

variable {body body' : Reading Tree}

theorem elementWith (h : C.Rel nested nested') (hbody : C.Rel body body') :
    C.Rel (elementWith nested body) (Grammar.elementWith nested' body') := by
  apply C.current
  intro a b hab
  rcases C.alike_cases hab with ⟨rfl, rfl⟩ | ⟨lexeme, line, line', rfl, rfl⟩
  · exact C.pure _
  · by_cases hfunction : lexeme = .keyword "function"
    · simpa [Token.isKeyword, hfunction] using C.skip (C.functionWith hbody)
    · simpa [Token.isKeyword, hfunction] using C.statementWith h

theorem elementsUpToBrace (h : C.Rel nested nested') (rounds : Nat) :
    C.Rel (elementsUpToBrace nested rounds) (Grammar.elementsUpToBrace nested' rounds) := by
  induction rounds with
  | zero => exact C.stall
  | succ rounds ih =>
    apply C.current
    intro a b hab
    rcases C.alike_cases hab with ⟨rfl, rfl⟩ | ⟨lexeme, line, line', rfl, rfl⟩
    · exact C.expected _ hab
    · by_cases hclose : lexeme = .punctuator "\x7d"
      · simpa [Token.isPunctuator, hclose] using C.skip (C.pure _)
      · simpa [Token.isPunctuator, hclose] using
          C.bind h fun first => C.bind ih fun others => C.pure _

theorem bodyWith (h : C.Rel nested nested') :
    C.Rel (bodyWith nested) (Grammar.bodyWith nested') :=
  C.eat "\x7b" (C.bind (C.rounds fun rounds => C.elementsUpToBrace h rounds) fun _ => C.pure _)

/-- A function body corresponds to itself, however many levels are left. -/
theorem bodyAt (room : Nat) : C.Rel (bodyAt room) (Grammar.bodyAt room) := by
  induction room with
  | zero => exact C.tooDeep
  | succ room ih => exact C.deeper (C.bodyWith (C.elementWith (C.assignmentAt room) ih))

theorem element : C.Rel element Grammar.element :=
  C.room fun room => C.elementWith (C.assignmentAt room) (C.bodyAt room)

theorem elementsUpToHole (h : C.Rel nested nested') (rounds : Nat) :
    C.Rel (elementsUpToHole nested rounds) (Grammar.elementsUpToHole nested' rounds) := by
  induction rounds with
  | zero => exact C.stall
  | succ rounds ih =>
    refine C.bind h fun first => ?_
    cases first.isHole with
    | true => exact C.pure _
    | false => exact C.bind ih fun others => C.pure _

/-- **A whole script** corresponds to itself. -/
theorem script : C.Rel script Grammar.script :=
  C.rounds fun rounds => C.elementsUpToHole C.element rounds

end Correspondence

end PageScript.Grammar
