import PageScript.Proofs.Grammar.Foretelling

/-!
# A script is read to its end

A script that is read has been read as a whole: its text has been cut into tokens to the last
character, and no token is left. Its reading always comes to an end, and it stops for one of two
reasons only.

* `script_exhausts` — behind a script that is read, the stream is finished;
* `readTokens_foretold` — what the first tokens are read as, and what that says of the whole;
* `readTokens_cases` — what reading plain tokens can come to;
* `readTokens_settled` — a failure that does not lie at the end of the tokens is the failure of all
  token lists that go on from there;
* `readScript_exhausts` — the statement about texts.
-/

namespace PageScript.Grammar

/-- What texts read as can be compared. -/
instance decidableRead : DecidableEq (Except Stop (List Tree))
  | .ok body, .ok body' => decidable_of_iff (body = body') (by simp)
  | .error stop, .error stop' => decidable_of_iff (stop = stop') (by simp)
  | .ok _, .error _ => isFalse nofun
  | .error _, .ok _ => isFalse nofun

/-! ### Streams -/

section

variable {stream : Scan} {file : Option String}

theorem readTokens_readOn (stream : Scan) (file : Option String) :
    readTokens stream file = (readOn script stream 0 file).map Prod.fst := by
  rw [readTokens_eq]
  unfold readOn
  cases fetch stream 0 file <;> rfl

theorem start_of_fetch {cursor : Cursor} (h : fetch stream 0 file = .ok cursor) :
    Cursor.start stream file = .ok cursor := by
  obtain ⟨tokens, failure⟩ := stream
  cases tokens <;> cases failure <;> cases h <;> rfl

/-- **A script that is read is read to its end.** The stream has ended well, and nothing of it is
left. -/
theorem script_exhausts (hplain : ∀ token ∈ stream.tokens, token.IsPlain) {cursor after : Cursor}
    {body : List Tree} (hcursor : fetch stream 0 file = .ok cursor)
    (h : script cursor = .ok body after) : stream.failure = none ∧ after = .exhausted 0 file := by
  have hpending : ∀ token ∈ cursor.pending, token.IsPlain := by
    rw [(fetch_ok hcursor).2.1]
    exact hplain
  have hend : after.current = none := script_ends hpending h
  let cut : Cut := ⟨stream.failure, .finished⟩
  have hscript : Heralds cut false script := .script
  have hforetold := hscript stream.tokens hplain 0 file
  rw [readOn_of_fetch (show fetch (cut.beginning stream.tokens) 0 file = .ok cursor from hcursor),
    h] at hforetold
  generalize readOn script (cut.whole stream.tokens) 0 file = whole at hforetold
  cases hforetold with
  | spent _ hending => exact ⟨hending, rfl⟩
  | @same _ rest _ hrest hafter =>
    obtain rfl : rest = [] := by
      have hhead := (fetch_ok hafter).1
      rw [hend] at hhead
      exact List.head?_eq_none_iff.1 hhead.symm
    exact fetch_beginning_nil hafter

end

/-! ### Beginnings of streams -/

section

variable (cut : Cut) {tokens : List Token} (file : Option String)

/-- **What the beginning of a stream is read as** foretells what the whole is read as: it ends well;
it meets what ends it; a punctuator is asked for at its end; or it stops for good. -/
theorem readTokens_foretold (hplain : ∀ token ∈ tokens, token.IsPlain) :
    (cut.ending = none ∧ ∃ body, readTokens (cut.beginning tokens) file = .ok body) ∨
      (∃ failure, cut.ending = some failure ∧
        readTokens (cut.beginning tokens) file = .error (.failed failure)) ∨
      (cut.ending = none ∧ ∃ mark, readTokens (cut.beginning tokens) file =
        .error (.failed (.structural (.expected mark none) file))) ∨
      ∃ cause, readTokens (cut.beginning tokens) file = .error (.failed (.structural cause file)) ∧
        (readTokens (cut.whole tokens) file = .error (.failed (.structural cause file)) ∨
          cut.ending = none ∧ ∃ stop, readTokens (cut.whole tokens) file = .error stop) := by
  have hscript : Heralds cut false script := .script
  have hforetold := hscript tokens hplain 0 file
  rw [readTokens_readOn, readTokens_readOn]
  generalize hshort : readOn script (cut.beginning tokens) 0 file = short at hforetold
  generalize readOn script (cut.whole tokens) 0 file = whole at hforetold
  cases hforetold with
  | @same body rest after hrest hafter =>
    obtain ⟨cursor, hcursor, hbody⟩ := readOn_ok hshort
    have hending : cut.ending = none := (script_exhausts hplain hcursor hbody).1
    exact .inl ⟨hending, body, rfl⟩
  | @spent body _ _ hending => exact .inl ⟨hending, body, rfl⟩
  | met hending => exact .inr (.inl ⟨_, hending, rfl⟩)
  | wanting hending => exact .inr (.inr (.inl ⟨hending, _, rfl⟩))
  | settled => exact .inr (.inr (.inr ⟨_, rfl, .inl rfl⟩))
  | doomed hending => exact .inr (.inr (.inr ⟨_, rfl, .inr ⟨hending, _, rfl⟩⟩))

end

/-- **Reading comes to an end.** Plain tokens are read, or the reading meets what ends them, or a
punctuator is missing or a level is one too many. -/
theorem readTokens_cases {stream : Scan} (file : Option String)
    (hplain : ∀ token ∈ stream.tokens, token.IsPlain) :
    (stream.failure = none ∧ ∃ body, readTokens stream file = .ok body) ∨
      (∃ failure, stream.failure = some failure ∧
        readTokens stream file = .error (.failed failure)) ∨
      ∃ cause, readTokens stream file = .error (.failed (.structural cause file)) := by
  rcases readTokens_foretold ⟨stream.failure, .finished⟩ file hplain with
    hbody | hmet | ⟨-, mark, hwanting⟩ | ⟨cause, hcause, -⟩
  · exact .inl hbody
  · exact .inr (.inl hmet)
  · exact .inr (.inr ⟨.expected mark none, hwanting⟩)
  · exact .inr (.inr ⟨cause, hcause⟩)

/-- **A failure before the end.** Where a stream fails, it is read until it does, or until a failure
that it shares with every token list that goes on from its tokens. -/
theorem readTokens_settled {stream : Scan} (file : Option String)
    (hplain : ∀ token ∈ stream.tokens, token.IsPlain) {failure : Failure}
    (hfailure : stream.failure = some failure) :
    readTokens stream file = .error (.failed failure) ∨
      ∃ cause, readTokens stream file = .error (.failed (.structural cause file)) ∧
        ∀ more, readTokens (.ofTokens (stream.tokens ++ more)) file =
          .error (.failed (.structural cause file)) := by
  by_cases hmet : readTokens stream file = .error (.failed failure)
  · exact .inl hmet
  · right
    have hsettled : ∀ more, ∃ cause,
        readTokens stream file = .error (.failed (.structural cause file)) ∧
          readTokens (.ofTokens (stream.tokens ++ more)) file =
            .error (.failed (.structural cause file)) := by
      intro more
      rcases readTokens_foretold ⟨stream.failure, .ofTokens more⟩ file hplain with
        ⟨hnone, -⟩ | ⟨failure', hsome, hmet'⟩ | ⟨hnone, -⟩ | ⟨cause, hcause, hwhole | ⟨hnone, -⟩⟩
      · simp [hfailure] at hnone
      · obtain rfl : failure = failure' := Option.some.inj (hfailure.symm.trans hsome)
        exact absurd hmet' hmet
      · simp [hfailure] at hnone
      · exact ⟨cause, hcause, hwhole⟩
      · simp [hfailure] at hnone
    obtain ⟨cause, hcause, -⟩ := hsettled []
    refine ⟨cause, hcause, fun more => ?_⟩
    obtain ⟨cause', hcause', hwhole⟩ := hsettled more
    rw [hwhole, ← hcause', hcause]

/-! ### Texts -/

section

variable (source : String) (file : Option String)

theorem scan_plain : ∀ token ∈ (scan source file).tokens, token.IsPlain :=
  scanFrom_plain file 1 0 source.toList

/-- A text whose tokens end well is read like a list of tokens. -/
theorem readScript_of_none (h : (scan source file).failure = none) :
    readScript source file = readTokens (.ofTokens (scan source file).tokens) file := by
  have htokens : scan source file = .ofTokens (scan source file).tokens := by
    rw [Scan.ofTokens, ← h]
  rw [readScript, ← htokens]

/-- A text that is read has been cut into tokens to its end. -/
theorem scan_failure_of_ok {body : List Tree} (h : readScript source file = .ok body) :
    (scan source file).failure = none := by
  rcases readTokens_cases file (scan_plain source file) with
    ⟨hnone, -⟩ | ⟨failure, -, hmet⟩ | ⟨cause, hcause⟩
  · exact hnone
  · rw [readScript, hmet] at h
    cases h
  · rw [readScript, hcause] at h
    cases h

/-- A text that is read leaves nothing of its tokens. -/
theorem script_exhausted_of_ok {body : List Tree} (h : readScript source file = .ok body) :
    ∃ start, Cursor.start (scan source file) file = .ok start ∧
      script start = .ok body (.exhausted 0 file) := by
  rw [readScript, readTokens_readOn] at h
  cases hread : readOn script (scan source file) 0 file with
  | error stop =>
    rw [hread] at h
    cases h
  | ok pair =>
    obtain ⟨body', after⟩ := pair
    rw [hread] at h
    obtain rfl : body' = body := Except.ok.inj h
    obtain ⟨start, hstart, hbody⟩ := readOn_ok hread
    obtain ⟨-, rfl⟩ := script_exhausts (scan_plain source file) hstart hbody
    exact ⟨start, start_of_fetch hstart, hbody⟩

/-- A text that is refused is refused for a lexical or a structural reason. -/
theorem readScript_stage {stop : Stop} (h : readScript source file = .error stop) :
    ∃ failure, stop = .failed failure ∧
      (failure.stage = some .lexical ∨ failure.stage = some .structural) := by
  rcases readTokens_cases file (scan_plain source file) with
    ⟨-, body, hbody⟩ | ⟨failure, hsome, hmet⟩ | ⟨cause, hcause⟩
  · rw [readScript, hbody] at h
    cases h
  · rw [readScript, hmet] at h
    cases h
    exact ⟨failure, rfl, .inl (scanFrom_failure file 1 0 source.toList failure hsome)⟩
  · rw [readScript, hcause] at h
    cases h
    exact ⟨_, rfl, .inr rfl⟩

/-- **A script is read as a whole or not at all.** A text is read if and only if it can be cut into
tokens to its end and the list of these tokens is read, and then no token is left. A text that cannot
be cut to its end is refused, either for that reason or for one that it shares with every list of
tokens that goes on from those before the place. Reading a text always comes to an end, and so does
reading any list of tokens whose keywords are the language's. -/
theorem readScript_exhausts :
    (∀ body, readScript source file = .ok body ↔
      (scan source file).failure = none ∧
        readTokens (.ofTokens (scan source file).tokens) file = .ok body) ∧
    (∀ body, readScript source file = .ok body → ∃ start,
      Cursor.start (scan source file) file = .ok start ∧
        script start = .ok body (.exhausted 0 file)) ∧
    (∀ failure, (scan source file).failure = some failure →
      readScript source file = .error (.failed failure) ∨
        ∃ cause, readScript source file = .error (.failed (.structural cause file)) ∧
          ∀ more, readTokens (.ofTokens ((scan source file).tokens ++ more)) file =
            .error (.failed (.structural cause file))) ∧
    ((∃ body, readScript source file = .ok body) ∨
      ∃ failure, readScript source file = .error (.failed failure)) ∧
    ∀ tokens : List Token, (∀ token ∈ tokens, token.IsPlain) →
      (∃ body, readTokens (.ofTokens tokens) file = .ok body) ∨
        ∃ cause, readTokens (.ofTokens tokens) file =
          .error (.failed (.structural cause file)) := by
  refine ⟨fun body => ⟨fun h => ?_, fun ⟨hnone, h⟩ => ?_⟩, fun body => ?_, fun failure => ?_, ?_,
    fun tokens hplain => ?_⟩
  · have hnone := scan_failure_of_ok source file h
    exact ⟨hnone, readScript_of_none source file hnone ▸ h⟩
  · exact (readScript_of_none source file hnone).trans h
  · exact script_exhausted_of_ok source file
  · exact readTokens_settled file (scan_plain source file)
  · cases hread : readScript source file with
    | ok body => exact .inl ⟨body, rfl⟩
    | error stop =>
      obtain ⟨failure, rfl, -⟩ := readScript_stage source file hread
      exact .inr ⟨failure, rfl⟩
  · have hstream : ∀ token ∈ (Scan.ofTokens tokens).tokens, token.IsPlain := hplain
    rcases readTokens_cases file hstream with ⟨-, hbody⟩ | ⟨failure, hsome, -⟩ | hcause
    · exact .inl hbody
    · cases hsome
    · exact .inr hcause

/-- A keyword that is none of the language's ends a script early, so the tokens have to be plain. -/
example : readTokens (.ofTokens [⟨.keyword "while", 1⟩, ⟨.number 1, 1⟩]) none = .ok [] := by
  rfl

end

end PageScript.Grammar
