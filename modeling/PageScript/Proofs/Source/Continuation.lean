import PageScript.Proofs.Grammar.Lines
import PageScript.Proofs.Source.Exhaustion
import PageScript.Shell.Prompt

/-!
# Text that is typed line by line

A script may be given line by line, and what has come so far is read again with each of them. Two
things can be relied on. Text that is refused for another reason than that it ends too early is
refused whatever follows. And a function that takes up several lines is waited for until its last.

* `readTokens_refused` — tokens that no token behind them can save;
* `element_foretold`, `readTokens_waits` — a function whose tokens do not all stand there yet;
* `readScript_refused`, `readScript_of_lines` — the statements about texts.
-/

namespace PageScript

/-- A stream with another behind it ends well if both do. -/
theorem Scan.append_failure (first second : Scan) :
    (first.append second).failure = none ↔ first.failure = none ∧ second.failure = none := by
  cases h : first.failure with
  | none => simp [append_of_none h, prepend]
  | some failure => simp [append_of_failure h, h]

/-- The tokens of a stream stay, whatever comes behind it. -/
theorem Scan.append_tokens_ne_nil {first : Scan} (h : first.tokens ≠ []) (second : Scan) :
    (first.append second).tokens ≠ [] := by
  cases hfailure : first.failure with
  | none => simp [append_of_none hfailure, prepend, h]
  | some failure => rwa [append_of_failure hfailure]

namespace Grammar

/-! ### Tokens -/

section

variable {cut : Cut} {tokens : List Token} {file : Option String}

/-- Tokens whose reading stops for another reason than that they end stay refused. -/
theorem readTokens_refused (hplain : ∀ token ∈ tokens, token.IsPlain) (hending : cut.ending = none)
    {failure : Failure} (hfinal : Prompt.isIncomplete failure = false)
    (h : readTokens (cut.beginning tokens) file = .error (.failed failure)) :
    ∃ stop, readTokens (cut.whole tokens) file = .error stop := by
  rcases readTokens_foretold cut file hplain with
    ⟨-, body, hbody⟩ | ⟨failure', hsome, -⟩ | ⟨-, mark, hwanting⟩ | ⟨cause, -, hwhole | ⟨-, hwhole⟩⟩
  · simp [hbody] at h
  · simp [hending] at hsome
  · obtain rfl : Failure.structural (.expected mark none) file = failure := by
      simpa [hwanting] using h
    simp [Prompt.isIncomplete] at hfinal
  · exact ⟨_, hwhole⟩
  · exact hwhole

/-- A function that has begun does not end well just because the tokens end. -/
theorem element_foretold {token : Token} {rest : List Token}
    (hplain : ∀ t ∈ token :: rest, t.IsPlain) (hfunction : token.isKeyword "function") :
    Foretells cut true (token :: rest) element element := by
  refine .room fun room => .current_cons ?_
  simp only [hfunction, if_true]
  exact Heralds.skip (.functionWith (.bodyAt room) (bodyAt_end room)) hplain

/-- A script that consists of a function starts with its keyword, and behind the function no token
is ahead. -/
theorem script_function {cursor last : Cursor} {token : Token} {name block : Tree}
    {params : List Tree} (hcurrent : cursor.current = some token)
    (hplain : ∀ token ∈ cursor.pending, token.IsPlain)
    (h : script cursor = .ok [.function name params block] last) :
    token.isKeyword "function" ∧
      ∃ after, element cursor = .ok (.function name params block) after ∧ after.current = none := by
  have htoken : token.IsPlain := hplain token (mem_pending hcurrent)
  obtain ⟨first, after, hfirst, ⟨-, hbody, -⟩ | ⟨-, others, hothers, hbody⟩⟩ := script_cases h
  · cases hbody
  · cases hbody
    refine ⟨elementWith_function hcurrent htoken hfirst, after, hfirst, ?_⟩
    obtain ⟨next, after', hnext, ⟨hhole, -, -⟩ | ⟨-, others, -, hbody⟩⟩ := script_cases hothers
    · exact (element_absent (element_plain hplain hfirst) hnext hhole).1
    · cases hbody

/-- A script fails where its first element does. -/
theorem readTokens_of_element {stream : Scan} {cursor : Cursor} {stop : Stop}
    (hfetch : fetch stream 0 file = .ok cursor) (h : readOn element stream 0 file = .error stop) :
    readTokens stream file = .error stop := by
  rw [readOn_of_fetch hfetch] at h
  rw [readTokens_readOn, readOn_of_fetch hfetch]
  show (result (elementsUpToHole element _ _)).map Prod.fst = _
  rw [elementsUpToHole_succ]
  cases helement : element cursor with
  | error stop' after =>
    rw [helement] at h
    cases h
    rfl
  | ok tree after =>
    rw [helement] at h
    cases h

/-- **A function is waited for.** If tokens read as a single function, then the first of them, but
not all, make it ask for a punctuator where they end. -/
theorem readTokens_waits {token : Token} {rest : List Token}
    (hplain : ∀ t ∈ (cut.whole (token :: rest)).tokens, t.IsPlain) (hmore : cut.more.tokens ≠ [])
    (hending : cut.ending = none) {name block : Tree} {params : List Tree}
    (h : readTokens (cut.whole (token :: rest)) file = .ok [.function name params block]) :
    ∃ mark, readTokens (cut.beginning (token :: rest)) file =
      .error (.failed (.structural (.expected mark none) file)) := by
  let cursor : Cursor := ⟨some token, cut.whole rest, 0, file⟩
  have hfetch : fetch (cut.whole (token :: rest)) 0 file = .ok cursor := rfl
  have hcurrent : cursor.current = some token := rfl
  have hbeginning : ∀ t ∈ token :: rest, t.IsPlain :=
    fun t ht => hplain t (List.mem_append_left _ ht)
  -- what is behind the function, once the whole has been read
  obtain ⟨last, hscript⟩ : ∃ last, script cursor = .ok [.function name params block] last := by
    rw [readTokens_readOn, readOn_of_fetch hfetch] at h
    cases hscript : script cursor with
    | error stop last =>
      rw [hscript] at h
      cases h
    | ok body last =>
      rw [hscript] at h
      cases h
      exact ⟨last, rfl⟩
  obtain ⟨hfunction, after, helement, hlast⟩ := script_function hcurrent hplain hscript
  have hforetold : Foretold cut true (token :: rest) 0 file _ _ :=
    element_foretold hbeginning hfunction 0 file
  rw [readOn_of_fetch hfetch, helement] at hforetold
  generalize hshort : readOn element (cut.beginning (token :: rest)) 0 file = short at hforetold
  generalize hwhole : result (.ok (Tree.function name params block) after) = whole at hforetold
  cases hforetold with
  | @same _ rest' _ _ _ =>
    -- the function ends within the beginning, so a token is left behind it
    cases hrest : fetch (cut.whole rest') 0 file with
    | error stop =>
      rw [hrest] at hwhole
      cases hwhole
    | ok after' =>
      rw [hrest] at hwhole
      cases hwhole
      have hhead := (fetch_ok hrest).1
      rw [hlast] at hhead
      have hnil : rest' ++ cut.more.tokens = [] := List.head?_eq_none_iff.1 hhead.symm
      exact absurd (List.append_eq_nil_iff.1 hnil).2 hmore
  | spent hclosed => cases hclosed
  | met hsome => simp [hending] at hsome
  | @wanting mark => exact ⟨mark, readTokens_of_element rfl hshort⟩
  | settled => cases hwhole
  | doomed => cases hwhole

end

/-! ### Texts -/

/-- **Text that is refused before it ends stays refused.** If it is refused for any other reason than
that a function is not complete yet, then no line below it makes a script of it. -/
theorem readScript_refused (source text : String) (file : Option String) (failure : Failure)
    (h : readScript source file = .error (.failed failure))
    (hfinal : Prompt.isIncomplete failure = false) :
    ∃ failure', readScript (source ++ "\n" ++ text) file = .error (.failed failure') ∧
      (failure'.stage = some .lexical ∨ failure'.stage = some .structural) := by
  obtain ⟨stop, hstop⟩ : ∃ stop, readScript (source ++ "\n" ++ text) file = .error stop := by
    rw [readScript, scan_below]
    generalize (scan text file).shift (source.toList.count '\n' + 1 : Nat) = more
    cases hsource : (scan source file).failure with
    | some failure' =>
      rw [Scan.append_of_failure hsource]
      exact ⟨_, h⟩
    | none =>
      rw [Scan.append_of_none hsource]
      rw [readScript_of_none source file hsource] at h
      let cut : Cut := ⟨none, more⟩
      have hending : cut.ending = none := rfl
      exact readTokens_refused (scan_plain source file) hending hfinal h
  obtain ⟨failure', rfl, hstage⟩ := readScript_stage _ file hstop
  exact ⟨failure', hstop, hstage⟩

theorem readScript_refused_function :
    ∃ failure, readScript ("function f 2 \x7b" ++ "\n" ++ "\x7d") none = .error (.failed failure) ∧
      (failure.stage = some .lexical ∨ failure.stage = some .structural) :=
  readScript_refused "function f 2 \x7b" "\x7d" none
    (.structural (.expected "(" (some ⟨.number 2, 1⟩)) none) (by cbv) rfl

/-! ### Lines -/

section

variable {lines : List String} {file : Option String} {name block : Tree} {params : List Tree}

/-- A line with something in it stays so, whatever lines stand below it. -/
theorem tokens_of_first (hne : lines ≠ [])
    (hfirst : ∀ line ∈ lines.head?, (scan line file).tokens ≠ []) :
    (scan ("\n".intercalate lines) file).tokens ≠ [] := by
  rcases lines with _ | ⟨line, _ | ⟨below, others⟩⟩
  · exact absurd rfl hne
  · simpa using hfirst line rfl
  · rw [String.intercalate_cons_cons, scan_below]
    exact Scan.append_tokens_ne_nil (hfirst line rfl) _

/-- So does one below others, provided that they can be cut to their end. -/
theorem tokens_of_last (hne : lines ≠ [])
    (hlast : ∀ line ∈ lines.getLast?, (scan line file).tokens ≠ [])
    (hfailure : (scan ("\n".intercalate lines) file).failure = none) :
    (scan ("\n".intercalate lines) file).tokens ≠ [] := by
  obtain ⟨above, line, rfl⟩ := (List.eq_nil_or_concat lines).resolve_left hne
  have hline : (scan line file).tokens ≠ [] := hlast line (by simp)
  cases above with
  | nil => simpa using hline
  | cons first others =>
    rw [List.concat_eq_append, String.intercalate_append_of_ne_nil (List.cons_ne_nil _ _)
      (List.cons_ne_nil _ _), String.intercalate_singleton, scan_below] at hfailure ⊢
    obtain ⟨habove, -⟩ := (Scan.append_failure _ _).1 hfailure
    rw [Scan.append_of_none habove]
    simp [Scan.prepend, Scan.shift, hline]

/-- A text that reads as a single function is waited for while the text below it is missing. -/
theorem readScript_waits {upper lower : String} (hupper : (scan upper file).tokens ≠ [])
    (hlower : (scan lower file).failure = none → (scan lower file).tokens ≠ [])
    (h : readScript (upper ++ "\n" ++ lower) file = .ok [.function name params block]) :
    ∃ mark, readScript upper file =
      .error (.failed (.structural (.expected mark none) file)) := by
  have hplain := scan_plain (upper ++ "\n" ++ lower) file
  have hfailure := scan_failure_of_ok _ file h
  rw [readScript, scan_below] at h
  rw [scan_below] at hplain hfailure
  obtain ⟨hends, hends'⟩ := (Scan.append_failure _ _).1 hfailure
  rw [Scan.append_of_none hends] at hplain h
  rw [readScript_of_none upper file hends]
  have hmore := hlower (Option.map_eq_none_iff.1 hends')
  cases htokens : (scan upper file).tokens with
  | nil => exact absurd htokens hupper
  | cons token rest =>
    rw [htokens] at hplain h
    let cut : Cut := ⟨none, (scan lower file).shift (upper.toList.count '\n' + 1 : Nat)⟩
    have hmore' : cut.more.tokens ≠ [] := fun hnil => hmore (List.map_eq_nil_iff.1 hnil)
    have hwhole : ∀ t ∈ (cut.whole (token :: rest)).tokens, t.IsPlain := hplain
    have hending : cut.ending = none := rfl
    exact readTokens_waits hwhole hmore' hending h

/-- **A function that is typed line by line is waited for.** Suppose that lines make up a single
function, and that the first and the last of them have something in them. Then the first of them, but
not all, ask for a punctuator where they end, and the prompt keeps them. -/
theorem readScript_of_lines
    (h : readScript ("\n".intercalate lines) file = .ok [.function name params block])
    (hfirst : ∀ line ∈ lines.head?, (scan line file).tokens ≠ [])
    (hlast : ∀ line ∈ lines.getLast?, (scan line file).tokens ≠ [])
    {count : Nat} (hpos : 0 < count) (hless : count < lines.length) :
    (∃ mark, readScript ("\n".intercalate (lines.take count)) file =
      .error (.failed (.structural (.expected mark none) file))) ∧
    (file = Prompt.file → ∀ engine state, Prompt.runLines engine state (lines.take count) =
      ([], .stay ⟨state, lines.take count⟩)) := by
  have hupper : lines.take count ≠ [] := by
    intro hnil
    have hlength := congrArg List.length hnil
    rw [List.length_take, List.length_nil] at hlength
    omega
  have hlower : lines.drop count ≠ [] := by
    rw [ne_eq, List.drop_eq_nil_iff]
    omega
  rw [← List.take_append_drop count lines,
    String.intercalate_append_of_ne_nil hupper hlower] at h
  have hfirst' : ∀ line ∈ (lines.take count).head?, (scan line file).tokens ≠ [] := by
    rwa [List.head?_take, if_neg (Nat.pos_iff_ne_zero.1 hpos)]
  have hlast' : ∀ line ∈ (lines.drop count).getLast?, (scan line file).tokens ≠ [] := by
    rwa [List.getLast?_drop, if_neg (Nat.not_le.2 hless)]
  have hmark := readScript_waits (tokens_of_first hupper hfirst') (tokens_of_last hlower hlast') h
  refine ⟨hmark, ?_⟩
  rintro rfl engine state
  obtain ⟨mark, hmark⟩ := hmark
  rw [Prompt.runLines, hmark]
  rfl

/-- A function over three lines. -/
def threeLines : List String := ["function add(a, b) \x7b", "  return a + b;", "\x7d"]

theorem readScript_of_lines_three :
    (∃ mark, readScript ("\n".intercalate (threeLines.take 2)) Prompt.file =
      .error (.failed (.structural (.expected mark none) Prompt.file))) ∧
    (Prompt.file = Prompt.file → ∀ engine state,
      Prompt.runLines engine state (threeLines.take 2) = ([], .stay ⟨state, threeLines.take 2⟩)) := by
  have hfirst : (scan "function add(a, b) \x7b" Prompt.file).tokens.isEmpty = false := by cbv
  have hlast : (scan "\x7d" Prompt.file).tokens.isEmpty = false := by cbv
  have hbody : readScript ("\n".intercalate threeLines) Prompt.file =
      .ok [.function (.identifier "add") [.identifier "a", .identifier "b"]
        (.block [.returnStatement
          (.additive .add (.identifier "a") (.identifier "b"))])] := by
    cbv
  exact readScript_of_lines hbody (by simpa [threeLines] using hfirst)
    (by simpa [threeLines] using hlast) (by decide) (by decide)

end

end Grammar

end PageScript
