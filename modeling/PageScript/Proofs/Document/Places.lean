import Mathlib.Data.List.Forall2
import PageScript.Proofs.Document.Recovery
import PageScript.Proofs.Grammar.Lines

/-!
# Layout has no meaning

Two texts whose tokens say the same are the same script, however they are laid out and whatever file
they are in: they are read and run alike, and if they are refused, then for the same reason at tokens
that say the same.

* `StructuralCause.Alike` — causes that differ in the places of their tokens at most;
* `Token.moved_of_alike`, `StructuralCause.alike_of_moved` — tokens and causes that cannot be told
  apart once all places are one;
* `readScript_of_alike` — reading texts whose tokens say the same;
* `layout_has_no_meaning` — reading and running them.
-/

namespace PageScript

/-- Two causes that ask for the same punctuator, or draw the same limit, at tokens that say the
same. -/
inductive StructuralCause.Alike : StructuralCause → StructuralCause → Prop
  | expected (mark : String) {found found' : Option Token}
      (h : Option.Rel (fun a b => a.alike b = true) found found') :
      Alike (.expected mark found) (.expected mark found')
  | nesting (limit : Int) {found found' : Option Token}
      (h : Option.Rel (fun a b => a.alike b = true) found found') :
      Alike (.nesting limit found) (.nesting limit found')

/-! ### Telling tokens apart -/

/-- With all places in one, alike tokens are the same. -/
theorem Token.moved_of_alike {tokens tokens' : List Token}
    (h : List.Forall₂ (fun a b => a.alike b = true) tokens tokens') :
    tokens.map Relocation.together.token = tokens'.map Relocation.together.token := by
  induction h with
  | nil => rfl
  | @cons a b tokens tokens' halike _ ih =>
    have hlexeme : a.lexeme = b.lexeme := by simpa [Token.alike] using halike
    have htoken : Relocation.together.token a = Relocation.together.token b :=
      congrArg (Token.mk · 0) hlexeme
    rw [List.map_cons, List.map_cons, htoken, ih]

/-- Tokens ahead that are the same with all places in one are alike. -/
theorem Token.alike_of_moved {found found' : Option Token}
    (h : found.map Relocation.together.token = found'.map Relocation.together.token) :
    Option.Rel (fun a b => a.alike b = true) found found' := by
  rcases found with _ | a <;> rcases found' with _ | b
  · exact .none
  · cases h
  · cases h
  · have htokens : Relocation.together.token a = Relocation.together.token b := Option.some.inj h
    have hlexeme : (Relocation.together.token a).lexeme = (Relocation.together.token b).lexeme := by
      rw [htokens]
    exact .some (decide_eq_true hlexeme)

/-- So are causes. -/
theorem StructuralCause.alike_of_moved {cause cause' : StructuralCause}
    (h : Relocation.together.cause cause = Relocation.together.cause cause') :
    cause.Alike cause' := by
  rcases cause with ⟨mark, found⟩ | ⟨limit, found⟩ <;>
    rcases cause' with ⟨mark', found'⟩ | ⟨limit', found'⟩
  · obtain ⟨rfl, hfound⟩ := StructuralCause.expected.inj h
    exact .expected mark (Token.alike_of_moved hfound)
  · cases h
  · cases h
  · obtain ⟨rfl, hfound⟩ := StructuralCause.nesting.inj h
    exact .nesting limit (Token.alike_of_moved hfound)

namespace Document

open Grammar

variable {source source' : String} {file file' : Option String}

/-- Reading a text that can be cut to its end comes to trees or to a structural cause. -/
theorem readScript_of_ends (hends : (scan source file).failure = none) :
    (∃ body, readScript source file = .ok body) ∨
      ∃ cause, readScript source file = .error (.failed (.structural cause file)) := by
  rcases readTokens_cases file (scan_plain source file) with
    ⟨-, hbody⟩ | ⟨failure, hfails, -⟩ | hcause
  · exact .inl hbody
  · rw [hends] at hfails
    cases hfails
  · exact .inr hcause

section

variable (hends : (scan source file).failure = none) (hends' : (scan source' file').failure = none)
  (halike : List.Forall₂ (fun a b => a.alike b = true) (scan source file).tokens
    (scan source' file').tokens)
include hends hends' halike

/-- With all places in one, the two texts cannot be told apart. -/
theorem readScript_moved :
    (readScript source file).mapError Relocation.together.stop =
      (readScript source' file').mapError Relocation.together.stop := by
  have hscan : Relocation.together.scan (scan source file) =
      Relocation.together.scan (scan source' file') := by
    unfold Relocation.scan
    rw [hends, hends', Token.moved_of_alike halike]
  have hread := readTokens_relocated .together (scan source file) file
  have hread' := readTokens_relocated .together (scan source' file') file'
  rw [← hscan] at hread'
  exact hread.symm.trans hread'

/-- **Texts whose tokens say the same** are read as the same trees, or are refused alike. -/
theorem readScript_of_alike :
    (∃ body, readScript source file = .ok body ∧ readScript source' file' = .ok body) ∨
      ∃ cause cause', cause.Alike cause' ∧
        readScript source file = .error (.failed (.structural cause file)) ∧
        readScript source' file' = .error (.failed (.structural cause' file')) := by
  have hmoved := readScript_moved hends hends' halike
  rcases readScript_of_ends hends with ⟨body, hbody⟩ | ⟨cause, hcause⟩ <;>
    rcases readScript_of_ends hends' with ⟨body', hbody'⟩ | ⟨cause', hcause'⟩
  · rw [hbody, hbody'] at hmoved
    obtain rfl := Except.ok.inj hmoved
    exact .inl ⟨body, hbody, hbody'⟩
  · rw [hbody, hcause'] at hmoved
    cases hmoved
  · rw [hcause, hbody'] at hmoved
    cases hmoved
  · rw [hcause, hcause'] at hmoved
    have hfailure := Stop.failed.inj (Except.error.inj hmoved)
    have hcauses := (Failure.structural.inj hfailure).1
    exact .inr ⟨cause, cause', StructuralCause.alike_of_moved hcauses, hcause, hcause'⟩

end

/-- A script that cannot be read ends with its failure, and one more line is logged. -/
theorem run_of_failed {engine : Engine} {failure : Failure} (debug : Bool) (state : State)
    (h : readScript source engine.file = .error (.failed failure)) :
    run engine debug source state = stop engine.file failure state := by
  unfold run
  rw [h]

/-- **Layout has no meaning.** Take two texts that can be cut to their ends, and whose tokens say
the same one by one. Either both are read as the same trees, or both are refused, for want of the
same punctuator or at the same limit and at tokens that say the same. If they are run in the same
file, by the same engine and from the same state, then they change the world alike and print the
same, and the one is completed if the other is. Indeed their runs are the same in all, except that
where they are refused the line that is logged names the place where each stands. -/
theorem layout_has_no_meaning (hends : (scan source file).failure = none)
    (hends' : (scan source' file').failure = none)
    (halike : List.Forall₂ (fun a b => a.alike b = true) (scan source file).tokens
      (scan source' file').tokens) :
    ((∃ body, readScript source file = .ok body ∧ readScript source' file' = .ok body) ∨
      ∃ cause cause', cause.Alike cause' ∧
        readScript source file = .error (.failed (.structural cause file)) ∧
        readScript source' file' = .error (.failed (.structural cause' file'))) ∧
    ∀ (engine : Engine) (debug : Bool) (state : State), engine.file = file → engine.file = file' →
      (run engine debug source state).2.world = (run engine debug source' state).2.world ∧
      ((run engine debug source state).1 = .completed ↔
        (run engine debug source' state).1 = .completed) ∧
      (run engine debug source state = run engine debug source' state ∨
        ∃ cause cause', cause.Alike cause' ∧
          run engine debug source state =
            stop engine.file (.structural cause engine.file) state ∧
          run engine debug source' state =
            stop engine.file (.structural cause' engine.file) state) := by
  have hread := readScript_of_alike hends hends' halike
  refine ⟨hread, ?_⟩
  rintro engine debug state rfl rfl
  rcases hread with ⟨body, hbody, hbody'⟩ | ⟨cause, cause', hcauses, hcause, hcause'⟩
  · have hruns : run engine debug source state = run engine debug source' state := by
      rw [run_of_read hbody, run_of_read hbody']
    rw [hruns]
    exact ⟨rfl, .rfl, .inl rfl⟩
  · have hstopped := run_of_failed debug state hcause
    have hstopped' := run_of_failed debug state hcause'
    refine ⟨?_, ?_, .inr ⟨cause, cause', hcauses, hstopped, hstopped'⟩⟩
    · rw [hstopped, hstopped']
      rfl
    · rw [hstopped, hstopped']
      exact ⟨Outcome.noConfusion, Outcome.noConfusion⟩

/-- A call on one line and on four, and a function without its body on one line and on two. -/
theorem layout_has_no_meaning_samples :
    (∀ engine : Engine, engine.file = none →
      (run engine true "say(1, 'two')" (.initial [] (.ofStore .empty))).2.world =
        (run engine true "say\n(1,\n\n\t\"two\" )" (.initial [] (.ofStore .empty))).2.world) ∧
    ∃ cause cause', cause.Alike cause' ∧
      readScript "function f() return" none = .error (.failed (.structural cause none)) ∧
      readScript "function f()\n  return" (some "page") =
        .error (.failed (.structural cause' (some "page"))) := by
  refine ⟨fun engine hfile => ?_, ?_⟩
  · have hends : (scan "say(1, 'two')" none).failure = none := by cbv
    have hends' : (scan "say\n(1,\n\n\t\"two\" )" none).failure = none := by cbv
    have halike : List.Forall₂ (fun a b => a.alike b = true) (scan "say(1, 'two')" none).tokens
        (scan "say\n(1,\n\n\t\"two\" )" none).tokens := by
      decide +kernel
    exact ((layout_has_no_meaning hends hends' halike).2 engine true _ hfile hfile).1
  · have hends : (scan "function f() return" none).failure = none := by cbv
    have hends' : (scan "function f()\n  return" (some "page")).failure = none := by cbv
    have halike : List.Forall₂ (fun a b => a.alike b = true) (scan "function f() return" none).tokens
        (scan "function f()\n  return" (some "page")).tokens := by
      decide +kernel
    rcases (layout_has_no_meaning hends hends' halike).1 with ⟨body, hbody, -⟩ | hcause
    · have hrefused : (readScript "function f() return" none).toOption = none := by cbv
      rw [hbody] at hrefused
      cases hrefused
    · exact hcause

end Document

end PageScript
