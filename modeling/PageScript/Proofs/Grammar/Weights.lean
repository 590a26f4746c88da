import PageScript.Proofs.Grammar.Reads

/-!
# What is lost on the way

A reading makes no more of its tokens than there is in them. Every lexeme but the marks has a weight,
as has the closing brace, and a tree weighs at most as much as the lexemes that it was read from. It
weighs less if one of them was taken without being understood.

* `Lexeme.weight`, `Tree.weight` — the weights;
* `Swallows` — lexemes among which the name of a declaration stands right in front of something that
  has a weight, which the declaration would take for its initializer;
* `Saves` — a reading whose value weighs no more than the lexemes it takes, and less if one of its
  declarations swallows a lexeme;
* `Saves.bind`, `Saves.advance`, `Saves.skip` and so on — one rule for each move;
* `readTokens_saves` — what this says of whole scripts.
-/

namespace PageScript

/-! ### Weights -/

/-- Whether a lexeme leaves a trace in what is read. -/
def Lexeme.weight : Lexeme → Nat
  | .punctuator mark => if mark = "\x7d" then 1 else 0
  | _ => 1

/-- What some lexemes weigh together. -/
def weigh : List Lexeme → Nat
  | [] => 0
  | first :: others => first.weight + weigh others

mutual

/-- What a tree weighs: its names, numbers and texts, the keywords of its statements and the closing
braces of its blocks. -/
def Tree.weight : Tree → Nat
  | .hole => 0
  | .number _ | .string _ | .identifier _ => 1
  | .expressionStatement tree => tree.weight
  | .returnStatement tree => tree.weight + 1
  | .additive _ left right | .assignment _ left right | .member left right
  | .declarator left right => left.weight + right.weight
  | .declaration trees | .block trees => Tree.weightOfAll trees + 1
  | .program trees => Tree.weightOfAll trees
  | .function name params body => name.weight + Tree.weightOfAll params + body.weight + 1
  | .call callee arguments => callee.weight + Tree.weightOfAll arguments

def Tree.weightOfAll : List Tree → Nat
  | [] => 0
  | first :: others => first.weight + Tree.weightOfAll others

end

namespace Tree

@[simp] theorem weight_hole : hole.weight = 0 := rfl

@[simp] theorem weight_identifier (name : String) : (identifier name).weight = 1 := rfl

@[simp] theorem weight_expressionStatement (tree : Tree) :
    (expressionStatement tree).weight = tree.weight := rfl

@[simp] theorem weight_returnStatement (tree : Tree) :
    (returnStatement tree).weight = tree.weight + 1 := rfl

@[simp] theorem weight_additive (operator : Operator) (left right : Tree) :
    (additive operator left right).weight = left.weight + right.weight := rfl

@[simp] theorem weight_assignment (operator : Operator) (left right : Tree) :
    (assignment operator left right).weight = left.weight + right.weight := rfl

@[simp] theorem weight_member (left right : Tree) :
    (member left right).weight = left.weight + right.weight := rfl

@[simp] theorem weight_declarator (left right : Tree) :
    (declarator left right).weight = left.weight + right.weight := rfl

@[simp] theorem weight_declaration (trees : List Tree) :
    (declaration trees).weight = weightOfAll trees + 1 := rfl

@[simp] theorem weight_block (trees : List Tree) :
    (block trees).weight = weightOfAll trees + 1 := rfl

@[simp] theorem weight_function (name : Tree) (params : List Tree) (body : Tree) :
    (function name params body).weight = name.weight + weightOfAll params + body.weight + 1 := rfl

@[simp] theorem weight_call (callee : Tree) (arguments : List Tree) :
    (call callee arguments).weight = callee.weight + weightOfAll arguments := rfl

@[simp] theorem weightOfAll_nil : weightOfAll [] = 0 := rfl

@[simp] theorem weightOfAll_cons (first : Tree) (others : List Tree) :
    weightOfAll (first :: others) = first.weight + weightOfAll others := rfl

end Tree

@[simp] theorem weigh_nil : weigh [] = 0 := rfl

@[simp] theorem weigh_cons (first : Lexeme) (others : List Lexeme) :
    weigh (first :: others) = first.weight + weigh others := rfl

@[simp] theorem weigh_append (lexemes lexemes' : List Lexeme) :
    weigh (lexemes ++ lexemes') = weigh lexemes + weigh lexemes' := by
  induction lexemes with
  | nil => exact (Nat.zero_add _).symm
  | cons first others ih => rw [List.cons_append, weigh_cons, weigh_cons, ih, Nat.add_assoc]

namespace Grammar

open Reading

variable {α β : Type}

/-! ### Declarations without a value -/

/-- A name that stands directly in front of another lexeme, which is no mark or a closing brace. -/
def Bare (lexemes : List Lexeme) : Prop :=
  ∃ name next behind, lexemes = .identifier name :: next :: behind ∧
    ∀ mark, next = .punctuator mark → mark = "\x7d"

/-- Somewhere among the lexemes stands a declaration without a value, and between its name and the
next statement, or the brace that closes its body, stands nothing. -/
def Swallows (lexemes : List Lexeme) : Prop :=
  ∃ front behind, lexemes = front ++ .keyword "var" :: behind ∧ Bare behind

theorem Swallows.append {lexemes : List Lexeme} (h : Swallows lexemes) (front behind : List Lexeme) :
    Swallows (front ++ lexemes ++ behind) := by
  obtain ⟨before, after, rfl, name, next, more, rfl, hnext⟩ := h
  exact ⟨front ++ before, _, by simp, name, next, more ++ behind, rfl, hnext⟩

/-- None of the lexemes that have been taken is the keyword of such a declaration. -/
def Kept (taken rest : List Lexeme) : Prop :=
  ∀ front behind, taken = front ++ .keyword "var" :: behind → ¬Bare (behind ++ rest)

theorem Kept.nil (rest : List Lexeme) : Kept [] rest := by
  intro front behind h
  exact absurd h.symm (List.append_ne_nil_of_right_ne_nil front (List.cons_ne_nil _ _))

theorem Kept.cons {first : Lexeme} {taken rest : List Lexeme} (h : Kept taken rest)
    (hfirst : first = .keyword "var" → ¬Bare (taken ++ rest)) : Kept (first :: taken) rest := by
  intro front behind heq
  cases front with
  | nil =>
    obtain ⟨rfl, rfl⟩ := List.cons.inj heq
    exact hfirst rfl
  | cons _ front =>
    obtain ⟨rfl, rfl⟩ := List.cons.inj heq
    exact h front behind rfl

theorem Kept.append {taken others rest : List Lexeme} (h : Kept taken (others ++ rest))
    (hothers : Kept others rest) : Kept (taken ++ others) rest := by
  induction taken with
  | nil => exact hothers
  | cons first taken ih =>
    refine (ih fun front behind heq => h (first :: front) behind (by rw [heq]; rfl)).cons ?_
    rintro rfl
    rw [List.append_assoc]
    exact h [] taken rfl

theorem Lexeme.weight_of_bare {next : Lexeme} (h : ∀ mark, next = .punctuator mark → mark = "\x7d") :
    next.weight = 1 := by
  cases next with
  | punctuator mark =>
    obtain rfl := h mark rfl
    rfl
  | _ => rfl

/-! ### Readings that save -/

/-- The lexemes of the tokens that have not been consumed. -/
def lexemesFrom (cursor : Cursor) : List Lexeme :=
  cursor.pending.map (·.lexeme)

/-- What a reading gives at a cursor weighs no more than what was there before and the lexemes that
it takes. Unless it weighs less, no declaration has swallowed anything. -/
def Saves (before : Nat) (x : Reading α) (weight : α → Nat) (cursor : Cursor) : Prop :=
  ∀ value after, x cursor = .ok value after → ∃ taken,
    lexemesFrom cursor = taken ++ lexemesFrom after ∧ weight value ≤ before + weigh taken ∧
      (weight value = before + weigh taken → Kept taken (lexemesFrom after))

/-- What a reading gives at a cursor weighs less than what was there before and the lexemes that it
takes. -/
def Wastes (before : Nat) (x : Reading α) (weight : α → Nat) (cursor : Cursor) : Prop :=
  ∀ value after, x cursor = .ok value after → ∃ taken,
    lexemesFrom cursor = taken ++ lexemesFrom after ∧ weight value < before + weigh taken

/-- If there is a lexeme left, it is that of the token ahead. -/
def Ready (cursor : Cursor) : Prop :=
  cursor.current.map (·.lexeme) = (lexemesFrom cursor).head?

theorem advance_ok {cursor after : Cursor} {found : Option Token}
    (h : advance cursor = .ok found after) :
    found = cursor.current ∧
      (cursor.current = none ∧ after = cursor ∨
        ∃ token, cursor.current = some token ∧
          lexemesFrom cursor = token.lexeme :: lexemesFrom after ∧ Ready after) := by
  obtain ⟨_ | token, ⟨_ | ⟨next, tokens⟩, _ | failure⟩, depth, file⟩ := cursor <;> cases h
  all_goals first
    | exact ⟨rfl, .inl ⟨rfl, rfl⟩⟩
    | exact ⟨rfl, .inr ⟨token, rfl, rfl, rfl⟩⟩

/-- Taking a token that is known to be there. -/
theorem advance_ready {f : Option Token → Reading β} {cursor last : Cursor} {value : β}
    {first : Lexeme} {others : List Lexeme} (hready : Ready cursor)
    (hlexemes : lexemesFrom cursor = first :: others)
    (h : (advance >>= f) cursor = .ok value last) :
    ∃ line after, Ready after ∧ lexemesFrom after = others ∧
      f (some ⟨first, line⟩) after = .ok value last := by
  rw [bind_eq] at h
  cases hfirst : advance cursor with
  | error stop after =>
    rw [hfirst] at h
    cases h
  | ok found after =>
    rw [hfirst] at h
    unfold Ready at hready
    rw [hlexemes] at hready
    obtain ⟨rfl, ⟨hcurrent, -⟩ | ⟨⟨lexeme, line⟩, hcurrent, htaken, hafter⟩⟩ := advance_ok hfirst
    · rw [hcurrent] at hready
      cases hready
    · rw [hlexemes] at htaken
      obtain ⟨rfl, rfl⟩ := List.cons.inj htaken
      rw [hcurrent] at h
      exact ⟨line, after, hafter, rfl, h⟩

theorem Wastes.bind {before : Nat} {weight : α → Nat} {weight' : β → Nat} {cursor : Cursor}
    {x : Reading α} {f : α → Reading β} (hx : Wastes before x weight cursor)
    (hf : ∀ value after, Saves (weight value) (f value) weight' after) :
    Wastes before (x >>= f) weight' cursor := by
  intro value last h
  rw [bind_eq] at h
  cases hfirst : x cursor with
  | error stop after =>
    rw [hfirst] at h
    cases h
  | ok first after =>
    rw [hfirst] at h
    obtain ⟨taken, htaken, hlt⟩ := hx first after hfirst
    obtain ⟨others, hothers, hle, -⟩ := hf first after value last h
    refine ⟨taken ++ others, ?_, ?_⟩
    · rw [htaken, hothers, List.append_assoc]
    · rw [weigh_append]
      omega

namespace Saves

variable {before : Nat} {weight : α → Nat} {weight' : β → Nat} {cursor : Cursor}

theorem pure {value : α} (h : weight value ≤ before) :
    Saves before (Pure.pure value) weight cursor := by
  intro value' after hvalue
  cases hvalue
  exact ⟨[], rfl, h, fun _ => .nil _⟩

theorem refuse (cause : StructuralCause) :
    Saves before (refuse cause : Reading α) weight cursor :=
  fun _ _ h => nomatch h

theorem stall : Saves before (throw .stalled : Reading α) weight cursor :=
  fun _ _ h => nomatch h

/-- With something there before. -/
theorem frame {x : Reading α} (before : Nat) (h : Saves 0 x weight cursor) :
    Saves before x (fun value => weight value + before) cursor := by
  intro value after hvalue
  obtain ⟨taken, htaken, hle, hkept⟩ := h value after hvalue
  dsimp only
  exact ⟨taken, htaken, by omega, fun heq => hkept (by omega)⟩

/-- Something that is lost before the reading. -/
theorem slack {x : Reading α} {less : Nat} (h : Saves less x weight cursor) (hle : less ≤ before) :
    Saves before x weight cursor := by
  intro value after hvalue
  obtain ⟨taken, htaken, hweight, hkept⟩ := h value after hvalue
  exact ⟨taken, htaken, by omega, fun heq => hkept (by omega)⟩

theorem bind {x : Reading α} {f : α → Reading β} (hx : Saves before x weight cursor)
    (hf : ∀ value after, Saves (weight value) (f value) weight' after) :
    Saves before (x >>= f) weight' cursor := by
  intro value last h
  rw [bind_eq] at h
  cases hfirst : x cursor with
  | error stop after =>
    rw [hfirst] at h
    cases h
  | ok first after =>
    rw [hfirst] at h
    obtain ⟨taken, htaken, hle, hkept⟩ := hx first after hfirst
    obtain ⟨others, hothers, hle', hkept'⟩ := hf first after value last h
    refine ⟨taken ++ others, ?_, ?_, fun heq => ?_⟩
    · rw [htaken, hothers, List.append_assoc]
    · rw [weigh_append]
      omega
    · rw [weigh_append] at heq
      have hfirst := hkept (by omega)
      rw [hothers] at hfirst
      exact hfirst.append (hkept' (by omega))

theorem current {f : Option Token → Reading β} (h : Saves before (f cursor.current) weight' cursor) :
    Saves before (Reading.current >>= f) weight' cursor := h

theorem wastes {x : Reading α} {less : Nat} (h : Saves less x weight cursor)
    (hlt : less < before) : Wastes before x weight cursor := by
  intro value after hvalue
  obtain ⟨taken, htaken, hweight, -⟩ := h value after hvalue
  exact ⟨taken, htaken, by omega⟩

/-- Taking the token ahead. What is made of it may weigh as much as it does, but less if it is the
keyword of a declaration that swallows something. -/
theorem advance {f : Option Token → Reading β}
    (hnone : cursor.current = none → Saves before (f none) weight' cursor)
    (hsome : ∀ token after, cursor.current = some token → Ready after →
      Saves (before + token.lexeme.weight) (f (some token)) weight' after ∧
        (token.lexeme = .keyword "var" → Bare (lexemesFrom after) →
          Wastes (before + token.lexeme.weight) (f (some token)) weight' after)) :
    Saves before (Reading.advance >>= f) weight' cursor := by
  intro value last h
  rw [bind_eq] at h
  cases hfirst : Reading.advance cursor with
  | error stop after =>
    rw [hfirst] at h
    cases h
  | ok found after =>
    rw [hfirst] at h
    obtain ⟨rfl, ⟨hcurrent, rfl⟩ | ⟨token, hcurrent, hlexemes, hready⟩⟩ := advance_ok hfirst
    · rw [hcurrent] at h
      exact hnone hcurrent value last h
    · rw [hcurrent] at h
      obtain ⟨hsaves, hwastes⟩ := hsome token after hcurrent hready
      obtain ⟨taken, htaken, hle, hkept⟩ := hsaves value last h
      refine ⟨token.lexeme :: taken, ?_, ?_, fun heq => ?_⟩
      · rw [hlexemes, htaken]
        rfl
      · rw [weigh_cons]
        omega
      · rw [weigh_cons] at heq
        refine (hkept (by omega)).cons fun hvar hbare => ?_
        rw [← htaken] at hbare
        obtain ⟨taken', htaken', hlt⟩ := hwastes hvar hbare value last h
        obtain rfl : taken = taken' := List.append_cancel_right (htaken.symm.trans htaken')
        omega

/-- Taking the token ahead and making something of it, unless it is the keyword of a declaration. -/
theorem take {f : Option Token → Reading β}
    (hnone : cursor.current = none → Saves before (f none) weight' cursor)
    (hsome : ∀ token after, cursor.current = some token →
      ∃ now ≤ before + token.lexeme.weight, Saves now (f (some token)) weight' after ∧
        (token.lexeme = .keyword "var" → now ≤ before)) :
    Saves before (Reading.advance >>= f) weight' cursor := by
  refine advance hnone fun token after hcurrent _ => ?_
  obtain ⟨now, hnow, hsaves, hvar⟩ := hsome token after hcurrent
  refine ⟨slack hsaves hnow, fun hword _ => wastes hsaves ?_⟩
  have hle := hvar hword
  rw [hword]
  exact Nat.lt_succ_of_le hle

/-- Taking the token ahead and making nothing of it. -/
theorem skip {f : Option Token → Reading β}
    (h : ∀ found after, Saves before (f found) weight' after) :
    Saves before (Reading.advance >>= f) weight' cursor :=
  take (fun _ => h none cursor) fun token after _ =>
    ⟨before, Nat.le_add_right _ _, h (some token) after, fun _ => Nat.le_refl _⟩

/-- A part that is read behind a mark, and only there. -/
theorem option (mark : String) {x other : Reading β} (hx : ∀ after, Saves before x weight' after)
    (hother : Saves before other weight' cursor) :
    Saves before (atPunctuator mark >>= fun found =>
      if found then Reading.advance >>= fun _ => x else other) weight' cursor := by
  rw [atPunctuator_eq, bind_assoc]
  refine current ?_
  rw [pure_bind]
  split
  · exact skip fun _ after => hx after
  · exact hother

theorem deeper {x : Reading α} (h : ∀ cursor, Saves before x weight cursor) :
    Saves before (Reading.deeper x) weight cursor := by
  intro value last hvalue
  unfold Reading.deeper at hvalue
  cases hinner : x { cursor with depth := cursor.depth + 1 } with
  | error stop after =>
    rw [hinner] at hvalue
    cases hvalue
  | ok value' after =>
    rw [hinner] at hvalue
    cases hvalue
    exact h { cursor with depth := cursor.depth + 1 } value after hinner

theorem room {f : Nat → Reading α} (h : ∀ room, Saves before (f room) weight cursor) :
    Saves before (withRoom f) weight cursor :=
  h _

theorem rounds {f : Nat → Reading α} (h : ∀ rounds, Saves before (f rounds) weight cursor) :
    Saves before (fun cursor => f (cursor.pending.length + 1) cursor) weight cursor :=
  h _

theorem eat (mark : String) : Saves before (Reading.eat mark) (fun _ => before) cursor := by
  rw [eat_eq]
  refine skip fun found after => ?_
  cases found with
  | none => exact refuse _
  | some token =>
    dsimp only
    split
    · exact pure (Nat.le_refl _)
    · exact refuse _

/-! ### Expressions -/

theorem tooDeep : Saves before (tooDeep : Reading α) weight cursor :=
  current (refuse _)

theorem identifier : Saves 0 identifier Tree.weight cursor := by
  refine take (fun _ => pure (Nat.le_refl _)) fun token after _ => ?_
  obtain ⟨lexeme, line⟩ := token
  cases lexeme with
  | identifier name => exact ⟨1, Nat.le_refl _, pure (Nat.le_refl _), fun h => nomatch h⟩
  | _ => exact ⟨0, Nat.zero_le _, pure (Nat.le_refl _), fun _ => Nat.le_refl _⟩

theorem primary : Saves 0 primary Tree.weight cursor := by
  refine take (fun _ => pure (Nat.le_refl _)) fun token after _ => ?_
  obtain ⟨lexeme, line⟩ := token
  cases lexeme with
  | identifier _ | string _ | number _ =>
    exact ⟨1, Nat.le_refl _, pure (Nat.le_refl _), fun h => nomatch h⟩
  | _ => exact ⟨0, Nat.zero_le _, pure (Nat.le_refl _), fun _ => Nat.le_refl _⟩

theorem member : Saves 0 member Tree.weight cursor := by
  refine bind primary fun object after => option "." (fun after => ?_) (pure (Nat.le_refl _))
  refine bind (frame object.weight identifier) fun property after => pure ?_
  simp only [Tree.weight_member]
  omega

/-! ### Lists -/

section

variable {nested : Reading Tree} (h : ∀ cursor, Saves 0 nested Tree.weight cursor)
include h

theorem listUpTo (close : String) (rounds : Nat) (cursor : Cursor) :
    Saves 0 (listUpTo close nested rounds) Tree.weightOfAll cursor := by
  induction rounds generalizing cursor with
  | zero => exact stall
  | succ rounds ih =>
    refine current ?_
    cases cursor.current with
    | none => exact pure (Nat.le_refl _)
    | some token =>
      dsimp only
      split
      · exact skip fun _ _ => pure (Nat.le_refl _)
      · split
        · exact skip fun _ after => ih after
        · refine bind (h cursor) fun first after =>
            bind (frame first.weight (ih after)) fun others _ => pure ?_
          simp only [Tree.weightOfAll_cons]
          omega

theorem list (close : String) (cursor : Cursor) :
    Saves 0 (list close nested) Tree.weightOfAll cursor :=
  rounds fun rounds => listUpTo h close rounds cursor

/-! ### Nested expressions -/

theorem calleeWith (cursor : Cursor) : Saves 0 (calleeWith nested) Tree.weight cursor := by
  refine bind member fun callee after => option "(" (fun after => ?_) (pure (Nat.le_refl _))
  refine bind (frame callee.weight (list h ")" after)) fun arguments _ => pure ?_
  simp only [Tree.weight_call]
  omega

theorem additiveWith (cursor : Cursor) : Saves 0 (additiveWith nested) Tree.weight cursor := by
  refine bind (calleeWith h cursor) fun left after => current ?_
  split
  · refine skip fun _ after => bind (frame left.weight (h after)) fun right _ => pure ?_
    simp only [Tree.weight_additive]
    omega
  · exact pure (Nat.le_refl _)

theorem assignmentWith (cursor : Cursor) : Saves 0 (assignmentWith nested) Tree.weight cursor := by
  refine bind (additiveWith h cursor) fun left after =>
    option "=" (fun after => ?_) (pure (Nat.le_refl _))
  refine bind (frame left.weight (h after)) fun right _ => pure ?_
  simp only [Tree.weight_assignment]
  omega

end

/-- An assignment weighs no more than its lexemes. -/
theorem assignmentAt (room : Nat) (cursor : Cursor) :
    Saves 0 (assignmentAt room) Tree.weight cursor := by
  induction room generalizing cursor with
  | zero => exact tooDeep
  | succ room ih => exact deeper fun cursor => assignmentWith ih cursor

/-! ### Statements and functions -/

section

variable {nested body : Reading Tree} (h : ∀ cursor, Saves 0 nested Tree.weight cursor)
include h

theorem initializerWith (cursor : Cursor) :
    Saves 0 (initializerWith nested) Tree.weight cursor := by
  refine skip fun found after => ?_
  cases found with
  | none => exact pure (Nat.le_refl _)
  | some token =>
    dsimp only
    split
    · exact h after
    · exact pure (Nat.le_refl _)

/-- A declaration weighs one more than its parts, for its keyword. -/
theorem declarationWith (cursor : Cursor) :
    Saves 1 (declarationWith nested) Tree.weight cursor := by
  refine bind (frame 1 identifier) fun target after => ?_
  refine bind (frame _ (initializerWith h after)) fun init _ => pure ?_
  simp only [Tree.weight_declaration, Tree.weight_declarator, Tree.weightOfAll_cons,
    Tree.weightOfAll_nil]
  omega

omit h in
/-- A declaration that swallows something weighs less. -/
theorem declarationWith_bare (hready : Ready cursor) (hbare : Bare (lexemesFrom cursor)) :
    Wastes 1 (Grammar.declarationWith nested) Tree.weight cursor := by
  obtain ⟨name, next, behind, hlexemes, hnext⟩ := hbare
  intro tree last htree
  unfold Grammar.declarationWith Grammar.identifier at htree
  rw [bind_assoc] at htree
  obtain ⟨line, middle, hmiddle, hrest, htree⟩ := advance_ready hready hlexemes htree
  rw [pure_bind] at htree
  unfold Grammar.initializerWith at htree
  rw [bind_assoc] at htree
  obtain ⟨line', after, -, hbehind, htree⟩ := advance_ready hmiddle hrest htree
  have hother : next ≠ .punctuator "=" := fun heq => absurd (hnext "=" heq) (by decide)
  simp only [Token.isPunctuator, hother, decide_false, Bool.false_eq_true, if_false, pure_bind]
    at htree
  cases htree
  refine ⟨[.identifier name, next], by rw [hlexemes, hbehind]; rfl, ?_⟩
  have hname : (Lexeme.identifier name).weight = 1 := rfl
  simp [Lexeme.weight_of_bare hnext, hname]

omit h in
theorem skipSemicolon {tree : Tree} (hle : tree.weight ≤ before) :
    Saves before (Grammar.skipSemicolon >>= fun _ => Pure.pure tree) Tree.weight cursor := by
  have hskip : Saves before Grammar.skipSemicolon (fun _ => before) cursor :=
    option ";" (fun _ => pure (Nat.le_refl _)) (pure (Nat.le_refl _))
  exact bind hskip fun _ _ => pure hle

theorem statementWith (cursor : Cursor) : Saves 0 (statementWith nested) Tree.weight cursor := by
  refine current ?_
  cases hcurrent : cursor.current with
  | none => exact pure (Nat.le_refl _)
  | some token =>
    obtain ⟨lexeme, line⟩ := token
    cases lexeme with
    | keyword word =>
      by_cases hvar : word = "var"
      · subst hvar
        have hend : ∀ tree after, Saves tree.weight
            (Grammar.skipSemicolon >>= fun _ => Pure.pure tree) Tree.weight after :=
          fun tree _ => skipSemicolon (Nat.le_refl _)
        refine advance (absurd · (by simp [hcurrent])) fun token after hsome hready => ?_
        obtain rfl := Option.some.inj (hcurrent.symm.trans hsome)
        exact ⟨bind (declarationWith h after) hend,
          fun _ hbare => (declarationWith_bare hready hbare).bind hend⟩
      · by_cases hreturn : word = "return"
        · subst hreturn
          refine take (absurd · (by simp [hcurrent])) fun token after hsome => ?_
          obtain rfl := Option.some.inj (hcurrent.symm.trans hsome)
          exact ⟨1, Nat.le_refl _, bind (frame 1 (h after)) fun _ _ => skipSemicolon (Nat.le_refl _),
            fun heq => absurd heq (by simp)⟩
        · have hhole : Saves 0 (Grammar.skipSemicolon >>= fun _ => Pure.pure Tree.hole) Tree.weight
              cursor := skipSemicolon (Nat.le_refl _)
          simpa [hvar, hreturn] using hhole
    | _ => exact bind (h cursor) fun _ _ => skipSemicolon (Nat.le_refl _)

omit h in
/-- A function weighs one more than its parts, for its keyword. -/
theorem functionWith (hbody : ∀ cursor, Saves 0 body Tree.weight cursor) (cursor : Cursor) :
    Saves 1 (functionWith body) Tree.weight cursor := by
  have hparams : ∀ cursor, Saves 0 params Tree.weightOfAll cursor := fun cursor =>
    bind (eat "(") fun _ after => list (fun _ => identifier) ")" after
  refine bind (frame 1 identifier) fun name after => ?_
  refine bind (frame _ (hparams after)) fun parameters after => ?_
  refine bind (frame _ (hbody after)) fun block _ => pure ?_
  simp only [Tree.weight_function]
  omega

theorem elementWith (hbody : ∀ cursor, Saves 0 body Tree.weight cursor) (cursor : Cursor) :
    Saves 0 (elementWith nested body) Tree.weight cursor := by
  refine current ?_
  cases hcurrent : cursor.current with
  | none => exact pure (Nat.le_refl _)
  | some token =>
    dsimp only
    split
    · next hfunction =>
      refine take (absurd · (by simp [hcurrent])) fun token' after hsome => ?_
      obtain rfl := Option.some.inj (hcurrent.symm.trans hsome)
      have hlexeme : token.lexeme = .keyword "function" := by
        simpa [Token.isKeyword] using hfunction
      refine ⟨1, ?_, functionWith hbody after, fun hvar => ?_⟩
      · rw [hlexeme]
        exact Nat.le_refl _
      · rw [hlexeme] at hvar
        exact absurd hvar (by decide)
    · exact statementWith h cursor

/-- Elements weigh one more between braces, for the brace that closes them. -/
theorem elementsUpToBrace (rounds : Nat) (cursor : Cursor) :
    Saves 0 (elementsUpToBrace nested rounds) (fun elements => Tree.weightOfAll elements + 1)
      cursor := by
  induction rounds generalizing cursor with
  | zero => exact stall
  | succ rounds ih =>
    refine current ?_
    cases hcurrent : cursor.current with
    | none => exact refuse _
    | some token =>
      dsimp only
      split
      · next hclose =>
        refine take (absurd · (by simp [hcurrent])) fun token' after hsome => ?_
        obtain rfl := Option.some.inj (hcurrent.symm.trans hsome)
        have hlexeme : token.lexeme = .punctuator "\x7d" := by
          simpa [Token.isPunctuator] using hclose
        refine ⟨1, ?_, pure (Nat.le_refl _), fun hvar => ?_⟩
        · rw [hlexeme]
          exact Nat.le_refl _
        · rw [hlexeme] at hvar
          exact absurd hvar (by decide)
      · refine bind (h cursor) fun first after =>
          bind (frame first.weight (ih after)) fun others _ => pure ?_
        simp only [Tree.weightOfAll_cons]
        omega

theorem bodyWith (cursor : Cursor) : Saves 0 (bodyWith nested) Tree.weight cursor := by
  refine bind (eat "\x7b") fun _ after => ?_
  exact bind (rounds fun rounds => elementsUpToBrace h rounds after) fun _ _ => pure (Nat.le_refl _)

theorem elementsUpToHole (rounds : Nat) (cursor : Cursor) :
    Saves 0 (elementsUpToHole nested rounds) Tree.weightOfAll cursor := by
  induction rounds generalizing cursor with
  | zero => exact stall
  | succ rounds ih =>
    refine bind (h cursor) fun first after => ?_
    split
    · exact pure (Nat.zero_le _)
    · refine bind (frame first.weight (ih after)) fun others _ => pure ?_
      simp only [Tree.weightOfAll_cons]
      omega

end

/-- A function body weighs no more than its lexemes. -/
theorem bodyAt (room : Nat) (cursor : Cursor) : Saves 0 (bodyAt room) Tree.weight cursor := by
  induction room generalizing cursor with
  | zero => exact tooDeep
  | succ room ih =>
    exact deeper fun cursor =>
      bodyWith (fun cursor => elementWith (assignmentAt room) ih cursor) cursor

/-- **A script weighs no more than its lexemes.** -/
theorem script (cursor : Cursor) : Saves 0 script Tree.weightOfAll cursor :=
  rounds fun rounds => elementsUpToHole
    (fun _ => room fun room => elementWith (assignmentAt room) (bodyAt room) _) rounds cursor

end Saves

/-- Where something is swallowed, there is a keyword. -/
theorem Swallows.cases {taken rest : List Lexeme} (h : Swallows (taken ++ rest)) :
    ¬Kept taken rest ∨ 0 < weigh rest := by
  obtain ⟨front, behind, heq, hbare⟩ := h
  have hone : (Lexeme.keyword "var").weight = 1 := rfl
  rcases List.append_eq_append_iff.1 heq with ⟨middle, rfl, rfl⟩ | ⟨middle, htaken, hrest⟩
  · right
    rw [weigh_append, weigh_cons]
    omega
  · cases middle with
    | nil =>
      right
      rw [List.nil_append] at hrest
      rw [← hrest, weigh_cons]
      omega
    | cons _ middle =>
      obtain ⟨rfl, rfl⟩ := List.cons.inj hrest
      exact .inl fun hkept => hkept front middle htaken hbare

/-- **A script that weighs as much as its tokens** has lost nothing. In particular no declaration in
it has swallowed what stands behind its name. -/
theorem readTokens_saves {stream : Scan} {file : Option String} {trees : List Tree}
    (h : readTokens stream file = .ok trees) :
    Tree.weightOfAll trees ≤ weigh (stream.tokens.map (·.lexeme)) ∧
      (Tree.weightOfAll trees = weigh (stream.tokens.map (·.lexeme)) →
        ¬Swallows (stream.tokens.map (·.lexeme))) := by
  rw [readTokens_eq] at h
  cases hfetch : fetch stream 0 file with
  | error stop =>
    rw [hfetch] at h
    cases h
  | ok cursor =>
    rw [hfetch] at h
    have hlexemes : lexemesFrom cursor = stream.tokens.map (·.lexeme) := by
      rw [lexemesFrom, (fetch_ok hfetch).2.1]
    cases hscript : script cursor with
    | error stop last =>
      simp [Except.bind, result, hscript, Except.map] at h
    | ok trees' last =>
      obtain rfl : trees' = trees := by simpa [Except.bind, result, hscript, Except.map] using h
      obtain ⟨taken, htaken, hle, hkept⟩ := Saves.script cursor trees' last hscript
      rw [← hlexemes, htaken, weigh_append]
      refine ⟨by omega, fun heq hswallows => ?_⟩
      rcases hswallows.cases with hlost | hpos
      · exact hlost (hkept (by omega))
      · omega

end Grammar

end PageScript
