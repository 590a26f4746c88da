import PageScript.Proofs.Evaluation.Piecemeal
import PageScript.Proofs.Shell.Session
import PageScript.Proofs.Source.Layout

/-!
# A file and a session agree

A program can be run as a file, or its lines can be typed at the prompt. The file is read as a
whole, and declares all of its functions before anything else happens. The session reads each
statement by itself, on the last of its lines, and executes it at once.

* `Text.decode?_toUTF8` — a file without carriage returns is read as it stands;
* `grouping_of_layout` — the groups of a session are the lines of the statements;
* `takeGroups_of_executeEach`, `transcript_of_executeEach`, `printed_shown` — a session takes the
  statements one by one, and shows what they print;
* `exit_zero_iff`, `body_at_prompt` — a file that comes to its end, told by its exit code, and what
  the same trees do at the prompt;
* `session_agrees_with_file` — both come to the same state, with the same output.

Only a program whose functions stand in front of all other statements is sure to do the same in
both. Otherwise a file may call a function that a session does not know yet.
-/

namespace PageScript

/-! ### The file -/

theorem Text.unifyLineEnds_of_not_mem {cs : List Char} (h : '\r' ∉ cs) : unifyLineEnds cs = cs := by
  fun_induction unifyLineEnds cs with
  | case1 => rfl
  | case2 rest ih => exact absurd (List.mem_cons_self ..) h
  | case3 rest hne ih => exact absurd (List.mem_cons_self ..) h
  | case4 c rest hne hne' ih => rw [ih fun hmem => h (List.mem_cons_of_mem c hmem)]

/-- **A file without carriage returns** is read as it stands. -/
theorem Text.decode?_toUTF8 {text : String} (h : '\r' ∉ text.toList) :
    decode? text.toUTF8 = some text := by
  have hutf8 : String.fromUTF8? text.toUTF8 = some text := dif_pos text.isValidUTF8
  rw [decode?, hutf8, Option.map_some, unifyLineEnds_of_not_mem h, String.ofList_toList]

namespace Prompt

open Evaluation Grammar Source

/-! ### The groups -/

section

variable {statement : Statement} {program : List Statement} {lines : List String}
  {paragraphs : List (List String)}

/-- The lines of a statement are a group. -/
theorem isGroup_of_onLines (h : OnLines statement lines) (hroom : statement.levels ≤ maxNesting) :
    IsGroup lines where
  nonempty := h.nonempty
  closed := by
    have hread := h.reads hroom file
    unfold isOpen
    rw [hread]
  shortest upper hbegins hne hpart := by
    obtain ⟨lower, rfl⟩ := hbegins
    have hlower : lower ≠ [] := by
      rintro rfl
      exact hpart (List.append_nil upper).symm
    cases hfunction : statement.isFunction with
    | false =>
      have hlength := h.single hfunction
      have hupper := List.length_pos_iff.2 hne
      have hbelow := List.length_pos_iff.2 hlower
      rw [List.length_append] at hlength
      omega
    | true =>
      obtain ⟨name, params, body, rfl⟩ :
          ∃ name params body, statement = .function name params body := by
        cases statement with
        | function name params body => exact ⟨name, params, body, rfl⟩
        | _ => cases hfunction
      have hread := h.reads hroom file
      rw [String.intercalate_append_of_ne_nil hne hlower] at hread
      have hfirst : ∀ line ∈ upper.head?, (scan line file).tokens ≠ [] := fun line hline =>
        h.filled line (List.mem_append_left _ (List.mem_of_mem_head? hline))
      have hlast : ∀ line ∈ lower.getLast?, (scan line file).tokens ≠ [] := fun line hline =>
        h.filled line (List.mem_append_right _ (List.mem_of_mem_getLast? hline))
      obtain ⟨mark, hmark⟩ :=
        readScript_waits (tokens_of_first hne hfirst) (tokens_of_last hlower hlast) hread
      unfold isOpen
      rw [hmark]
      rfl

/-- **The groups of a session are the lines of the statements.** -/
theorem grouping_of_layout (h : Layout program paragraphs)
    (hroom : Statement.levelsOfAll program ≤ maxNesting) :
    Grouping paragraphs.flatten paragraphs [] := by
  induction h with
  | nil => exact ⟨rfl, fun _ h => absurd h List.not_mem_nil, fun _ hbegins hne =>
      absurd (List.prefix_nil.1 hbegins) hne⟩
  | cons hlines _ ih =>
    rw [Statement.levelsOfAll] at hroom
    have hgroup := isGroup_of_onLines hlines (by omega)
    exact (ih (by omega)).cons hgroup

/-- Each group reads as the tree of its statement. -/
theorem reads_of_layout (h : Layout program paragraphs)
    (hroom : Statement.levelsOfAll program ≤ maxNesting) :
    paragraphs.map (fun group => readScript ("\n".intercalate group) file) =
      (Statement.trees program).map fun tree => .ok [tree] := by
  induction h with
  | nil => rfl
  | cons hlines _ ih =>
    rw [Statement.levelsOfAll] at hroom
    rw [List.map_cons, Statement.trees, List.map_cons, hlines.reads (by omega), ih (by omega)]

end

/-! ### The session -/

/-- The text of a piece that is printed. -/
def printed? : Piece → Option String
  | .printed text => some text
  | .cue _ => none

section

variable {engine : Engine} {state after : State}

/-- Groups that read as one tree each are executed tree by tree. -/
theorem takeGroups_of_executeEach {groups : List (List String)} {trees : List Tree}
    (hreads : groups.map (fun group => readScript ("\n".intercalate group) file) =
      trees.map fun tree => .ok [tree])
    (h : executeEach engine trees state = .ok () after) :
    takeGroups engine state groups = after := by
  induction groups generalizing trees state with
  | nil =>
    obtain rfl := List.map_eq_nil_iff.1 hreads.symm
    cases h
    rfl
  | cons group groups ih =>
    cases trees with
    | nil => cases hreads
    | cons tree trees =>
      obtain ⟨hread, hreads⟩ := List.cons.inj hreads
      obtain ⟨_, middle, hexecute, hrest⟩ := exists_of_bind h
      have hgroup : takeGroup engine state group = middle := by
        unfold takeGroup
        simp only [hread, hexecute]
      show takeGroups engine (takeGroup engine state group) groups = after
      rw [hgroup]
      exact ih hreads hrest

/-- A session with such groups. -/
theorem transcript_of_executeEach (hhost : engine.host = .idle) {groups : List (List String)}
    {trees : List Tree} (hgroups : ∀ group ∈ groups, IsGroup group)
    (hstays : ∀ line ∈ groups.flatten, isFarewell line = false)
    (hreads : groups.map (fun group => readScript ("\n".intercalate group) file) =
      trees.map fun tree => .ok [tree])
    (h : executeEach engine trees start.state = .ok () after) :
    start.transcript engine (groups.flatten.map .line) =
      (shown engine start.state groups ++ [cueAt 0, .printed "\n"], .leave (drain after).2) := by
  have hstart : ⟨(drain start.state).2, []⟩ = start := rfl
  have hsession := transcript_groups hhost ready_start hgroups hstays []
  rw [List.append_nil, hstart, takeGroups_of_executeEach hreads h] at hsession
  exact hsession

theorem filterMap_cues (lines : Nat) : (cues lines).filterMap printed? = [] := by
  rw [List.filterMap_eq_nil_iff]
  intro piece hpiece
  obtain ⟨place, -, rfl⟩ := List.mem_map.1 hpiece
  rfl

/-- What a session shows besides its cues is what has been printed. -/
theorem printed_shown (hhost : engine.host = .idle) {groups : List (List String)}
    (h : state.Ready) (hgroups : ∀ group ∈ groups, IsGroup group) :
    (takeGroups engine state groups).world.output =
      state.world.output ++ ((shown engine state groups).filterMap printed?).toArray := by
  induction groups generalizing state with
  | nil => simp [shown, takeGroups]
  | cons group groups ih =>
    obtain ⟨printed, -, houtput, hready⟩ :=
      runLines_group hhost h (hgroups group (List.mem_cons_self ..)).closed
    have hrest := ih hready fun other hother => hgroups other (List.mem_cons_of_mem _ hother)
    have hpieces : (printed.map Piece.printed).filterMap printed? = printed := by
      rw [List.filterMap_map]
      exact List.filterMap_some
    show (takeGroups engine (takeGroup engine state group) groups).world.output = _
    rw [hrest, houtput]
    simp [shown, printedSince_eq houtput, filterMap_cues, hpieces]

end

/-! ### Both -/

section

variable {settings : Settings} {path source : String} {body : List Tree} {after : State}

/-- An exit code of zero says that the script has been completed. -/
theorem exit_zero_iff : (Command.runFile settings path source).exit = .ok 0 ↔
    (Document.run (settings.engine (some path)) settings.debug source start.state).1 =
      .completed := by
  have hstart : start.state = State.initial [("console", (Blueprint.console.build .empty).1)]
      (.ofStore (Blueprint.console.build .empty).2) := rfl
  unfold Command.runFile
  rw [hstart]
  dsimp only
  generalize (Document.run (settings.engine (some path)) settings.debug source _).1 = outcome
  cases outcome <;> simp

/-- A file that is completed has been executed to its end. -/
theorem execute_of_exit (hdebug : settings.debug = false)
    (hread : readScript source (some path) = .ok body)
    (hexit : (Command.runFile settings path source).exit = .ok 0) :
    execute (settings.engine (some path)) body start.state =
      .ok () (Document.run (settings.engine (some path)) settings.debug source start.state).2 := by
  have hcompleted := exit_zero_iff.1 hexit
  have hstarted : Document.started (settings.engine (some path)) settings.debug body start.state =
      start.state := by
    rw [Document.started, hdebug]
    rfl
  have hfile : readScript source (settings.engine (some path)).file = .ok body := hread
  have hrun : Document.run (settings.engine (some path)) settings.debug source start.state =
      Document.runBody (settings.engine (some path)) body start.state := by
    rw [Document.run_of_read hfile, hstarted]
  rw [hrun] at hcompleted ⊢
  exact Document.runBody_completed.1 (Prod.ext hcompleted rfl)

/-- What a body does in a file, it does at the prompt. -/
theorem body_at_prompt
    (h : (hoist body >>= fun _ => evalSequence (eval (settings.engine (some path))) body)
      start.state = .ok () after) :
    (hoist body >>= fun _ => evalSequence (eval (settings.engine file)) body) start.state =
      .ok () after := by
  have hechoes : Echoes (fun _ _ => True)
      (hoist body >>= fun _ => evalSequence (eval (settings.engine (some path))) body)
      (hoist body >>= fun _ => evalSequence (eval (settings.engine file)) body) := by
    have hlimits : (settings.engine file).limits = (settings.engine (some path)).limits := rfl
    exact Echoes.body (fun _ => trivial) (fun _ => trivial) hlimits rfl rfl body
  have hecho := hechoes start.state #[]
  have hbehind : ∀ state : State, state.behind #[] = state := fun state => by
    simp only [State.behind, Array.empty_append]
  rw [h, hbehind] at hecho
  generalize (hoist body >>= fun _ => evalSequence (eval (settings.engine file)) body) start.state =
    result at hecho ⊢
  cases hecho with
  | value value after => rw [hbehind]

end

/-- **A file and a session agree.** Take a program whose functions stand in front of all other
statements, and lay it out on lines, each statement on lines of its own. Suppose that a file with
these lines, without debug output, ends with an exit code of zero, and that no return got out of all
functions. Then a session in which the same lines are typed executes each statement exactly once, in
order: its groups are the lines of the statements, each of them reads as the tree of its own, and
behind any number of them the session has come as far as these trees come one by one. It ends in the
state that the file ends in, with the same bindings, steps and log, and prints what the file prints,
before the line break at the end of the input. -/
theorem session_agrees_with_file {settings : Settings} (hdebug : settings.debug = false)
    {path : String} {functions others : List Statement} {paragraphs : List (List String)}
    (hfunctions : ∀ statement ∈ functions, statement.isFunction = true)
    (hothers : ∀ statement ∈ others, statement.isFunction = false)
    (hlayout : Layout (functions ++ others) paragraphs)
    (hroom : Statement.levelsOfAll (functions ++ others) ≤ maxNesting) {ended : Bool}
    (hexit : (Command.runFile settings path (fileText paragraphs.flatten ended)).exit = .ok 0)
    (hreturn : ¬ ReturnsOutside (settings.engine (some path))
      (Statement.trees (functions ++ others)) start.state) :
    let source := fileText paragraphs.flatten ended
    let trees := Statement.trees (functions ++ others)
    let filed := (Document.run (settings.engine (some path)) settings.debug source start.state).2
    let session := start.transcript (settings.engine file) (paragraphs.flatten.map .line)
    Text.decode? source.toUTF8 = some source ∧
      (Command.runFile settings path source).output = filed.world.printed ∧
      Grouping paragraphs.flatten paragraphs [] ∧
      paragraphs.map (fun group => readScript ("\n".intercalate group) file) =
        trees.map (fun tree => .ok [tree]) ∧
      (∀ count, ∃ after, executeEach (settings.engine file) (trees.take count) start.state =
          .ok () after ∧
        (start.transcript (settings.engine file) ((paragraphs.take count).flatten.map .line)).2 =
          .leave (drain after).2) ∧
      executeEach (settings.engine file) trees start.state = .ok () filed ∧
      session.1.filterMap printed? = filed.world.output.toList ++ ["\n"] ∧
      session.2 = .leave (drain filed).2 := by
  intro source trees filed session
  have hhost : (settings.engine file).host = .idle := rfl
  have hgrouping := grouping_of_layout hlayout hroom
  have hreads := reads_of_layout hlayout hroom
  -- the file comes to its end, and so does the session, tree by tree
  have hsource : readScript source (some path) = .ok trees := hlayout.reads hroom ended (some path)
  have hexecute := execute_of_exit hdebug hsource hexit
  have hbody := body_at_prompt (body_of_execute hexecute hreturn)
  have htrees : trees = functions.map Statement.tree ++ others.map Statement.tree := by
    show Statement.trees (functions ++ others) = _
    rw [Statement.trees_eq, List.map_append]
  have hfront : ∀ tree ∈ functions.map Statement.tree, tree.isFunction = true :=
    List.forall_mem_map.2 fun statement h =>
      statement.tree_isFunction.trans (hfunctions statement h)
  have hback : ∀ tree ∈ others.map Statement.tree, tree.isFunction = false :=
    List.forall_mem_map.2 fun statement h => statement.tree_isFunction.trans (hothers statement h)
  have heach : executeEach (settings.engine file) trees start.state = .ok () filed := by
    rw [htrees] at hbody ⊢
    exact executeEach_of_body hfront hback (by decide) hbody
  -- the session takes its groups one by one
  have hstays : ∀ line ∈ paragraphs.flatten, isFarewell line = false :=
    hlayout.forall_lines fun _ _ h => h.stays
  have hsession := transcript_of_executeEach hhost hgrouping.groups hstays hreads heach
  have hprinted := printed_shown hhost ready_start hgrouping.groups
  rw [takeGroups_of_executeEach hreads heach] at hprinted
  refine ⟨Text.decode?_toUTF8 (hlayout.unreturned ended), ?_, hgrouping, hreads, fun count => ?_,
    heach, ?_, congrArg Prod.snd hsession⟩
  · show (if settings.debug then _ else "") ++ filed.world.printed = _
    rw [hdebug]
    exact String.empty_append
  · obtain ⟨after, hafter⟩ := executeEach_take heach count
    have hfirst : ∀ group ∈ paragraphs.take count, IsGroup group := fun group hgroup =>
      hgrouping.groups group (List.mem_of_mem_take hgroup)
    have hlines : ∀ line ∈ (paragraphs.take count).flatten, isFarewell line = false := by
      intro line hline
      obtain ⟨group, hgroup, hmem⟩ := List.mem_flatten.1 hline
      exact hstays line (List.mem_flatten.2 ⟨group, List.mem_of_mem_take hgroup, hmem⟩)
    have htaken := congrArg (List.take count) hreads
    rw [← List.map_take, ← List.map_take] at htaken
    have hpart := transcript_of_executeEach hhost hfirst hlines htaken hafter
    exact ⟨after, hafter, congrArg Prod.snd hpart⟩
  · have hnone : start.state.world.output = #[] := rfl
    have hpieces : session.1 = _ := congrArg Prod.fst hsession
    rw [hpieces, List.filterMap_append, hprinted, hnone, Array.empty_append]
    rfl

/-- `function say(word) { console.log(word); }` -/
def speech : List Statement :=
  let say : Name := ⟨'s', ['a', 'y'], by decide, List.all_eq_true.1 (by decide), by decide⟩
  let word : Name := ⟨'w', ['o', 'r', 'd'], by decide, List.all_eq_true.1 (by decide), by decide⟩
  let log : Name := ⟨'l', ['o', 'g'], by decide, List.all_eq_true.1 (by decide), by decide⟩
  let console : Name := ⟨'c', ['o', 'n', 's', 'o', 'l', 'e'], by decide,
    List.all_eq_true.1 (by decide), by decide⟩
  [.function say [word] [.expression
    (.single (.call ⟨.name console, some log⟩ [.single (.plain ⟨.name word, none⟩)]))]]

/-- `var sum = 20; say(sum + 22);` -/
def occasion : List Statement :=
  let say : Name := ⟨'s', ['a', 'y'], by decide, List.all_eq_true.1 (by decide), by decide⟩
  let sum : Name := ⟨'s', ['u', 'm'], by decide, List.all_eq_true.1 (by decide), by decide⟩
  let more : Expression := .single (.plain ⟨.number ⟨22, by decide⟩, none⟩)
  [.declares sum (.single (.plain ⟨.number ⟨20, by decide⟩, none⟩)),
    .expression (.single (.call ⟨.name say, none⟩
      [.additive .plus (.plain ⟨.name sum, none⟩) more]))]

/-- The function over three lines, and the statements behind it. -/
def spoken : List (List String) :=
  let lexemes := Statement.lexemesOfAll speech
  rowsText [lexemes.take 6, (lexemes.drop 6).take 7, lexemes.drop 13] ::
    occasion.map fun statement => rowsText [statement.lexemes]

theorem layout_spoken : Layout (speech ++ occasion) spoken := by
  refine .cons (onLines_rows rfl (List.cons_ne_nil _ _) ?_ (by decide +kernel))
    (.cons (onLines_rows rfl (List.cons_ne_nil _ _) (fun _ => rfl) (by decide +kernel))
      (.cons (onLines_rows rfl (List.cons_ne_nil _ _) (fun _ => rfl) (by decide +kernel)) .nil))
  -- the one with several lines is a function
  exact fun hfunction => absurd hfunction (by decide)

/-- Up to 20 steps and three calls inside of one another. -/
def narrow : Settings := ⟨⟨some 20, 3⟩, false⟩

/-- The file and the session print the same sum. -/
theorem session_agrees_with_file_spoken :
    (Command.runFile narrow "speech.js" (fileText spoken.flatten true)).exit = .ok 0 ∧
      (Command.runFile narrow "speech.js" (fileText spoken.flatten true)).output = "42\n" ∧
      (start.transcript (narrow.engine file) (spoken.flatten.map .line)).1.filterMap printed? =
        ["42\n", "\n"] := by
  have hcompleted : (Document.run (narrow.engine (some "speech.js")) narrow.debug
      (fileText spoken.flatten true) start.state).1 = .completed := by decide +kernel
  have houtput : (Document.run (narrow.engine (some "speech.js")) narrow.debug
      (fileText spoken.flatten true) start.state).2.world.output = #["42\n"] := by decide +kernel
  have hexit := exit_zero_iff.2 hcompleted
  have hreturn : ¬ ReturnsOutside (narrow.engine (some "speech.js"))
      (Statement.trees (speech ++ occasion)) start.state := by
    have hends : (match (hoist (Statement.trees (speech ++ occasion)) >>= fun _ =>
        evalSequence (eval (narrow.engine (some "speech.js")))
          (Statement.trees (speech ++ occasion))) start.state with
      | .ok _ _ => true
      | .error _ _ => false) = true := by decide +kernel
    rintro ⟨value, after, hreturned⟩
    rw [hreturned] at hends
    cases hends
  have hdebug : narrow.debug = false := rfl
  obtain ⟨-, hfile, -, -, -, -, hsession, -⟩ :=
    session_agrees_with_file hdebug (by decide) (by decide) layout_spoken (by decide) hexit hreturn
  refine ⟨hexit, ?_, ?_⟩
  · rw [hfile, World.printed, houtput]
    rfl
  · rw [hsession, houtput]
    rfl

end Prompt

end PageScript
