import PageScript.Proofs.Document.Recovery
import PageScript.Proofs.Evaluation.ControlState
import PageScript.Proofs.Evaluation.Echo
import PageScript.Proofs.Evaluation.Failures
import PageScript.Proofs.Shell.Groups
import PageScript.Shell.Command

/-!
# A session runs its lines in groups

A session at the prompt reads one line at a time and decides after each whether it has enough. All
of that comes to this: the lines fall into groups, and the groups are run one after the other.

* `Prompt.takeGroup` — what one group does to the script that is running;
* `Prompt.shown` — what a session shows while it takes several groups;
* `State.Ready` — a state in which no call is running and nothing is too long to be written;
* `runLines_group`, `transcript_group` — the last line of a group runs it, and the others wait;
* `session_in_groups` — a session is the groups of its lines, taken in order.

The state of a session is emptied of its output after each group. Here it is kept, so that the state
holds all that has been printed.
-/

namespace PageScript

/-- No call is running, and no level is taken. -/
structure State.Resting (state : State) : Prop where
  calls : state.scope.calls = []
  depth : state.depth = 0
  callDepth : state.callDepth = 0

/-- A number that can be written down. -/
def IsWritable (n : Int) : Prop :=
  (Text.writeInteger? n).isSome

/-- A state between two groups of a session: at rest, with numbers that can be written down. -/
structure State.Ready (state : State) : Prop where
  resting : state.Resting
  writable : state.Only IsWritable

namespace Prompt

open Evaluation Grammar

/-! ### What a session comes to -/

/-- Prints a failure on a line of its own. -/
def say (failure : Failure) (state : State) : State :=
  { state with world := state.world.print failure.headline }

/-- Takes a group of lines: executes its program, and prints a failure to read or to execute it.
Programs at the prompt neither stall nor crash, so these endings stand for nothing. -/
def takeGroup (engine : Engine) (state : State) (group : List String) : State :=
  match readScript ("\n".intercalate group) file with
  | .ok body =>
    match execute engine body state with
    | .error (.failed (.script failure)) after => say failure after
    | .ok _ after | .error _ after => after
  | .error (.failed failure) => say failure state
  | .error .stalled => state

/-- Takes groups one after the other. -/
def takeGroups (engine : Engine) (state : State) (groups : List (List String)) : State :=
  groups.foldl (takeGroup engine) state

/-- The cue in front of the line at a place in its group: all but the first ask for more. -/
def cueAt (place : Nat) : Piece :=
  .cue (if place = 0 then ">>> " else "... ")

/-- The cues in front of the lines of a group. -/
def cues (lines : Nat) : List Piece :=
  (List.range lines).map cueAt

/-- What has been printed from one state to another. -/
def printedSince (before after : State) : List String :=
  after.world.output.toList.drop before.world.output.size

/-- What a session shows while it takes several groups: for each the cues of its lines, and then
what it prints. -/
def shown (engine : Engine) (state : State) : List (List String) → List Piece
  | [] => []
  | group :: groups =>
    let after := takeGroup engine state group
    cues group.length ++ (printedSince state after).map .printed ++ shown engine after groups

/-- Whether a line ends a session. -/
def isFarewell (line : String) : Bool :=
  farewells.contains (Text.strip line)

/-- The lines of a session, up to a farewell, an interruption or the end of the input. -/
def typed : List Input → List String
  | [] | .interrupt :: _ | .endOfInput :: _ => []
  | .line text :: inputs => if isFarewell text then [] else text :: typed inputs

/-- What is printed when a session ends: a line break at the end of the input, and a word about an
interruption, but nothing after a farewell. -/
def closing : List Input → List String
  | [] | .endOfInput :: _ => ["\n"]
  | .interrupt :: _ => ["\nInterrupted.\n"]
  | .line text :: inputs => if isFarewell text then [] else closing inputs

theorem printedSince_eq {before after : State} {printed : List String}
    (h : after.world.output = before.world.output ++ printed.toArray) :
    printedSince before after = printed := by
  rw [printedSince, h, Array.toList_append, ← Array.length_toList, List.drop_left]

/-! ### States between groups -/

theorem behind_drain (state : State) : (drain state).2.behind state.world.output = state := by
  obtain ⟨scope, steps, depth, callDepth, ⟨store, output, calls⟩, log⟩ := state
  simp only [drain, State.behind, Array.append_empty]

theorem drain_say (failure : Failure) (state : State) :
    (drain (say failure state)).2 = (drain state).2 := rfl

theorem ready_start : start.state.Ready where
  resting := ⟨rfl, rfl, rfl⟩
  writable := by
    have hconsole : Blueprint.console.Holds (Value.Only IsWritable) := trivial
    obtain ⟨hvalue, hstore⟩ := hconsole.build (fun _ => Value.only_of_isPlain) Store.Holds.empty
    exact State.only_iff.2 (.initial (List.forall_mem_singleton.2 hvalue) hstore)

theorem ready_say {state : State} (h : state.Ready) (failure : Failure) :
    (say failure state).Ready where
  resting := ⟨h.resting.calls, h.resting.depth, h.resting.callDepth⟩
  writable := ⟨h.writable.scope, h.writable.world.store, h.writable.world.calls⟩

section

variable {engine : Engine} (hhost : engine.host = .idle) {source : String} {body : List Tree}
  (hread : readScript source file = .ok body) {state : State} (h : state.Ready)
include hhost hread h

theorem keeps_execute : Confined (State.Only IsWritable) (Value.Only IsWritable)
    (Fault.Only IsWritable) (fun _ => True) (execute engine body state) := by
  have hidle : engine.host.Only IsWritable := by
    rw [hhost]
    exact fun _ _ _ => trivial
  have honly : Tree.OnlyAll IsWritable body := readScript_only writeInteger_wrap hread
  exact execute_only writeInteger_wrap hidle honly h.writable

theorem ready_execute : (final (execute engine body state)).Ready where
  resting := by
    have hrestored := drift_restored.moves_execute engine body state
    refine ⟨?_, hrestored.depth.trans h.resting.depth,
      hrestored.callDepth.trans h.resting.callDepth⟩
    have hheight := hrestored.scope.height
    rw [h.resting.calls] at hheight
    exact List.length_eq_zero_iff.1 hheight
  writable := (keeps_execute hhost hread h).last

/-- A program at the prompt comes to its end or fails while it is executed. -/
theorem execute_cases :
    (∃ after, execute engine body state = .ok () after) ∨
      ∃ cause file after,
        execute engine body state = .error (.failed (.script (.execution cause file))) after := by
  have hkeeps := keeps_execute hhost hread h
  cases hrun : execute engine body state with
  | ok value after => exact .inl ⟨after, rfl⟩
  | error exit after =>
    cases exit with
    | returned value => exact absurd hrun execute_not_returned
    | failed fault =>
      cases fault with
      | script failure =>
        have hhonest : engine.host.Honest := hhost ▸ Host.idle_honest
        obtain ⟨cause, file, rfl⟩ := execute_failure hhonest hrun
        exact .inr ⟨cause, file, after, rfl⟩
      | host fault =>
        -- only a number that cannot be written gets out, and there is none
        rw [hrun] at hkeeps
        cases hkeeps with
        | failed hfault _ =>
          obtain ⟨-, n, hn, hnone⟩ := hfault
          rw [IsWritable, hnone] at hn
          cases hn

end

/-! ### One group -/

section

variable {engine : Engine} (hhost : engine.host = .idle)
include hhost

/-- **The last line of a group runs it.** What it prints and leaves behind is what taking the group
comes to. -/
theorem runLines_group {state : State} (h : state.Ready) {group : List String}
    (hclosed : isOpen group = false) :
    ∃ printed, runLines engine (drain state).2 group =
        (printed, .stay ⟨(drain (takeGroup engine state group)).2, []⟩) ∧
      (takeGroup engine state group).world.output = state.world.output ++ printed.toArray ∧
      (takeGroup engine state group).Ready := by
  unfold runLines takeGroup
  cases hread : readScript ("\n".intercalate group) file with
  | error stop =>
    obtain ⟨failure, rfl, -⟩ := readScript_stage _ file hread
    have hno : isIncomplete failure = false := by
      unfold isOpen at hclosed
      rwa [hread] at hclosed
    refine ⟨[failure.headline ++ "\n"], ?_, ?_, ready_say h failure⟩
    · simp only [hno, Bool.false_eq_true, if_false, drain_say]
    · simp only [say, World.print, Array.push_eq_append]
  | ok body =>
    have hready := ready_execute hhost hread h
    have hcases := execute_cases hhost hread h
    have hecho := Echoes.execute hhost body (drain state).2 state.world.output
    rw [behind_drain] at hecho
    dsimp only
    generalize execute engine body (drain state).2 = result, execute engine body state = result'
      at hecho hready hcases ⊢
    cases hecho with
    | value value after =>
      refine ⟨after.world.output.toList, rfl, ?_, hready⟩
      simp only [State.behind, Array.toArray_toList]
    | returned value after => simp at hcases
    | failed after hsame =>
      obtain ⟨_, hok⟩ | ⟨cause, file, last, heq⟩ := hcases
      · cases hok
      · cases hsame
        obtain ⟨rfl, rfl⟩ :
            _ = Failure.execution cause file ∧ after.behind state.world.output = last := by
          simpa using heq
        refine ⟨after.world.output.toList ++ [(Failure.execution cause file).headline ++ "\n"],
          rfl, ?_, ready_say hready _⟩
        simp only [say, World.print, State.behind, ← List.push_toArray, Array.toArray_toList,
          Array.append_push]
    | crashed fault after => simp at hcases

end

/-! ### Several inputs -/

section

variable {engine : Engine}

theorem cue_eq (state : State) (waiting : List String) :
    Piece.cue (cue ⟨state, waiting⟩) = cueAt waiting.length := by
  cases waiting <;> rfl

/-- One line more. -/
theorem transcript_typed {state : State} {waiting : List String} {line : String}
    {printed : List String} {prompt : Prompt} (hstays : isFarewell line = false)
    (hrun : runLines engine state (waiting ++ [line]) = (printed, .stay prompt))
    (inputs : List Input) :
    transcript engine ⟨state, waiting⟩ (.line line :: inputs) =
      (cueAt waiting.length :: (printed.map .printed ++ (transcript engine prompt inputs).1),
        (transcript engine prompt inputs).2) := by
  have hfeed : feed engine ⟨state, waiting⟩ (.line line) = (printed, .stay prompt) := by
    unfold isFarewell at hstays
    simp only [feed, hstays, Bool.false_eq_true, if_false, hrun]
  rw [transcript, hfeed, ← cue_eq state]

/-- Lines that are open wait, and nothing else happens. -/
theorem transcript_open (engine : Engine) (state : State) (waiting : List String)
    {lines : List String} (hstays : ∀ line ∈ lines, isFarewell line = false)
    (hopen : ∀ upper, upper <+: lines → upper ≠ [] → isOpen (waiting ++ upper) = true)
    (inputs : List Input) :
    transcript engine ⟨state, waiting⟩ (lines.map .line ++ inputs) =
      ((List.range' waiting.length lines.length).map cueAt ++
        (transcript engine ⟨state, waiting ++ lines⟩ inputs).1,
        (transcript engine ⟨state, waiting ++ lines⟩ inputs).2) := by
  induction lines generalizing waiting with
  | nil => simp
  | cons line lines ih =>
    have hrun : runLines engine state (waiting ++ [line]) =
        ([], .stay ⟨state, waiting ++ [line]⟩) := by
      have hline := hopen [line] (by simp) (by simp)
      unfold isOpen at hline
      unfold runLines
      split at hline
      · next hread =>
        rw [hread]
        simp only [hline, if_true]
      · cases hline
    have hrest := ih (waiting ++ [line])
      (fun other hother => hstays other (List.mem_cons_of_mem _ hother))
      (fun upper hbegins hne => by
        have hmore := hopen (line :: upper) (List.cons_prefix_cons.2 ⟨rfl, hbegins⟩) (by simp)
        simpa using hmore)
    have hline := transcript_typed (hstays line (List.mem_cons_self ..)) hrun
    rw [List.map_cons, List.cons_append, hline, hrest]
    simp [List.range'_succ]

/-- **A group of lines,** at a prompt where nothing waits. -/
theorem transcript_group (hhost : engine.host = .idle) {state : State} (h : state.Ready)
    {group : List String} (hgroup : IsGroup group)
    (hstays : ∀ line ∈ group, isFarewell line = false) (inputs : List Input) :
    transcript engine ⟨(drain state).2, []⟩ (group.map .line ++ inputs) =
      (cues group.length ++ (printedSince state (takeGroup engine state group)).map .printed ++
        (transcript engine ⟨(drain (takeGroup engine state group)).2, []⟩ inputs).1,
        (transcript engine ⟨(drain (takeGroup engine state group)).2, []⟩ inputs).2) := by
  obtain ⟨printed, hrun, houtput, -⟩ := runLines_group hhost h hgroup.closed
  rw [printedSince_eq houtput]
  -- all lines but the last wait
  obtain ⟨upper, last, rfl⟩ : ∃ upper last, group = upper ++ [last] :=
    ⟨_, _, (List.dropLast_concat_getLast hgroup.nonempty).symm⟩
  have hopen : ∀ beginning, beginning <+: upper → beginning ≠ [] → isOpen beginning = true := by
    intro beginning hbegins hne
    refine hgroup.shortest beginning (hbegins.trans (List.prefix_append ..)) hne fun heq => ?_
    have hlength := hbegins.length_le
    rw [heq, List.length_append, List.length_singleton] at hlength
    omega
  have hupper := transcript_open engine (drain state).2 []
    (fun line hline => hstays line (List.mem_append_left _ hline)) hopen (.line last :: inputs)
  have hlast := transcript_typed (hstays last (by simp)) hrun inputs
  have hjoin : (upper ++ [last]).map .line ++ inputs =
      upper.map .line ++ Input.line last :: inputs := by
    simp
  rw [hjoin, hupper, List.nil_append, hlast]
  simp [cues, List.range_succ, List.range_eq_range']

/-- **Several groups of lines,** at a prompt where nothing waits. -/
theorem transcript_groups (hhost : engine.host = .idle) {groups : List (List String)}
    {state : State} (h : state.Ready) (hgroups : ∀ group ∈ groups, IsGroup group)
    (hstays : ∀ line ∈ groups.flatten, isFarewell line = false) (inputs : List Input) :
    transcript engine ⟨(drain state).2, []⟩ (groups.flatten.map .line ++ inputs) =
      (shown engine state groups ++
        (transcript engine ⟨(drain (takeGroups engine state groups)).2, []⟩ inputs).1,
        (transcript engine ⟨(drain (takeGroups engine state groups)).2, []⟩ inputs).2) := by
  induction groups generalizing state with
  | nil => rfl
  | cons group groups ih =>
    have hgroup := hgroups group (List.mem_cons_self ..)
    obtain ⟨_, _, _, hready⟩ := runLines_group hhost h hgroup.closed
    have hrest := ih hready (fun other hother => hgroups other (List.mem_cons_of_mem _ hother))
      (fun line hline => hstays line (by simp [List.flatten_cons, hline]))
    rw [List.flatten_cons, List.map_append, List.append_assoc,
      transcript_group hhost h hgroup (fun line hline => hstays line (by simp [hline])), hrest]
    simp only [shown, List.append_assoc, takeGroups, List.foldl_cons]

/-- The end of a session, with some lines that wait. -/
theorem transcript_closing {state : State} {waiting : List String} {inputs : List Input}
    (hnone : typed inputs = []) :
    transcript engine ⟨state, waiting⟩ inputs =
      (cueAt waiting.length :: (closing inputs).map .printed, .leave state) := by
  rw [← cue_eq state]
  cases inputs with
  | nil => rfl
  | cons input inputs =>
    cases input with
    | interrupt => rfl
    | endOfInput => rfl
    | line text =>
      have hfarewell : isFarewell text = true := by
        cases hstays : isFarewell text with
        | true => rfl
        | false => simp [typed, hstays] at hnone
      have hclosing : closing (.line text :: inputs) = [] := by
        simp only [closing, hfarewell, if_true]
      unfold isFarewell at hfarewell
      simp only [transcript, feed, hfarewell, if_true, hclosing]

end

theorem takeGroups_ready {engine : Engine} (hhost : engine.host = .idle)
    {groups : List (List String)} {state : State} (h : state.Ready)
    (hgroups : ∀ group ∈ groups, IsGroup group) :
    (takeGroups engine state groups).Ready := by
  induction groups generalizing state with
  | nil => exact h
  | cons group groups ih =>
    have hclosed := (hgroups group (List.mem_cons_self ..)).closed
    obtain ⟨_, _, _, hready⟩ := runLines_group hhost h hclosed
    exact ih hready fun other hother => hgroups other (List.mem_cons_of_mem _ hother)

/-- The inputs of a session are its lines, and then what ends it. -/
theorem exists_closing (inputs : List Input) :
    ∃ rest, inputs = (typed inputs).map .line ++ rest ∧ typed rest = [] ∧
      closing rest = closing inputs ∧ ∀ line ∈ typed inputs, isFarewell line = false := by
  fun_induction typed inputs with
  | case1 | case2 | case3 => exact ⟨_, rfl, rfl, rfl, fun _ h => absurd h List.not_mem_nil⟩
  | case4 text inputs hfarewell =>
    have hnone : typed (.line text :: inputs) = [] := by simp only [typed, hfarewell, if_true]
    exact ⟨_, rfl, hnone, rfl, fun _ h => absurd h List.not_mem_nil⟩
  | case5 text inputs hstays ih =>
    obtain ⟨rest, hjoin, hnone, hclosing, htyped⟩ := ih
    have hmore : closing (.line text :: inputs) = closing inputs := by
      simp only [closing, hstays, Bool.false_eq_true, if_false]
    refine ⟨rest, ?_, hnone, hclosing.trans hmore.symm, ?_⟩
    · rw [List.map_cons, List.cons_append, ← hjoin]
    · exact List.forall_mem_cons.2 ⟨Bool.eq_false_iff.2 hstays, htyped⟩

/-! ### A session -/

/-- **A session runs each of its lines in exactly one group, and once.** Its lines fall into groups
and a tail in exactly one way. It shows what taking the groups in order comes to: for each group the
cues of its lines, and then what its program prints, and the failure if there is one. The lines of
the tail are never executed. Between two groups no call is running and no level is taken. -/
theorem session_in_groups (settings : Settings) (inputs : List Input) :
    let engine := settings.engine file
    ∃ groups tail, Grouping (typed inputs) groups tail ∧
      (∀ groups' tail', Grouping (typed inputs) groups' tail' → groups' = groups ∧ tail' = tail) ∧
      (∀ earlier, earlier <+: groups → (takeGroups engine start.state earlier).Resting) ∧
      start.transcript engine inputs =
        (shown engine start.state groups ++ cues (tail.length + 1) ++ (closing inputs).map .printed,
          .leave (drain (takeGroups engine start.state groups)).2) := by
  intro engine
  have hhost : engine.host = .idle := rfl
  obtain ⟨groups, tail, hgrouping⟩ := exists_grouping (typed inputs)
  refine ⟨groups, tail, hgrouping, fun groups' tail' h' => hgrouping.unique h', ?_, ?_⟩
  · intro earlier hbegins
    have hgroups : ∀ group ∈ earlier, IsGroup group := fun group hmem =>
      hgrouping.groups group (hbegins.subset hmem)
    exact (takeGroups_ready hhost ready_start hgroups).resting
  · obtain ⟨rest, hinputs, hnone, hclosing, hstays⟩ := exists_closing inputs
    rw [← hgrouping.join] at hinputs hstays
    have hstart : ⟨(drain start.state).2, []⟩ = start := rfl
    have hgroups := transcript_groups hhost ready_start hgrouping.groups
      (fun line hline => hstays line (List.mem_append_left _ hline)) (tail.map .line ++ rest)
    have htail := transcript_open engine (drain (takeGroups engine start.state groups)).2 []
      (fun line hline => hstays line (List.mem_append_right _ hline)) hgrouping.tail rest
    rw [transcript_closing hnone, hclosing] at htail
    have hjoin : inputs = groups.flatten.map .line ++ (tail.map .line ++ rest) := by
      rw [hinputs, List.map_append, List.append_assoc]
    rw [hstart, ← hjoin, htail] at hgroups
    rw [hgroups]
    simp [cues, List.range_succ, List.range_eq_range']

end Prompt

end PageScript
