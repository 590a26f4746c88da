import PageScript.Proofs.Grammar.Progress
import PageScript.Proofs.Token.Typeset

/-!
# What a production reads

A production reads a value off the front of a stream of tokens and stops there, provided that what
comes next does not look as if it went on. The rules here derive such statements along a production.

* `fetch` — the cursor in front of a stream, if its first token can be fetched;
* `result` — what a reading gives, and the cursor behind it;
* `Clear` — none of the given marks comes next;
* `Reads` — a reading takes exactly these lexemes, whatever comes behind them that is clear of the
  given marks, and gives this value;
* `Reads.bind`, `Reads.advance`, `Reads.current`, `Reads.found`, `Reads.absent` — one rule for each
  move;
* `Reads.list`, `Reads.elementsUpToBrace` — the loops.

If the stream fails right behind the lexemes, the reading takes them all and then fails in the same
way: the failure is met when the last of them is taken.
-/

namespace PageScript

/-- The first lexeme of a stream. There is none at its end. -/
def Scan.first (stream : Scan) : Option Lexeme :=
  stream.tokens.head?.map (·.lexeme)

theorem Scan.first_prepend (tokens : List Token) (stream : Scan) :
    (stream.prepend tokens).first = (tokens.map (·.lexeme)).head?.or stream.first := by
  cases tokens <;> rfl

theorem Scan.prepend_append (tokens tokens' : List Token) (stream : Scan) :
    stream.prepend (tokens ++ tokens') = (stream.prepend tokens').prepend tokens := by
  simp [Scan.prepend]

namespace Grammar

open Reading

variable {α β σ : Type}

/-! ### Cursors in front of streams -/

/-- The cursor in front of a stream of tokens, if the first of them can be fetched. -/
def fetch (stream : Scan) (depth : Nat) (file : Option String) : Except Stop Cursor :=
  match stream.next with
  | (.ok current, ahead) => .ok ⟨current, ahead, depth, file⟩
  | (.error failure, _) => .error (.failed failure)

/-- What a reading gives and where it gets to, or why it stops. -/
def result : EStateM.Result Stop Cursor α → Except Stop (α × Cursor)
  | .ok value cursor => .ok (value, cursor)
  | .error stop _ => .error stop

theorem result_bind (x : Reading α) (f : α → Reading β) (cursor : Cursor) :
    result ((x >>= f) cursor) =
      (result (x cursor)).bind fun (value, after) => result (f value after) := by
  rw [bind_eq]
  cases x cursor <;> rfl

section

variable {stream : Scan} {depth : Nat} {file : Option String}

theorem fetch_cons (token : Token) (tokens : List Token) :
    fetch (stream.prepend (token :: tokens)) depth file =
      .ok ⟨some token, stream.prepend tokens, depth, file⟩ := rfl

/-- With a token in front, a stream does not fail. -/
theorem fetch_error {tokens : List Token} {stop : Stop}
    (h : fetch (stream.prepend tokens) depth file = .error stop) :
    tokens = [] ∧ fetch stream depth file = .error stop := by
  cases tokens with
  | nil => exact ⟨rfl, h⟩
  | cons token tokens =>
    rw [fetch_cons] at h
    cases h

theorem result_advance (token : Token) :
    result (advance ⟨some token, stream, depth, file⟩) =
      (fetch stream depth file).map (some token, ·) := by
  obtain ⟨tokens, failure⟩ := stream
  cases tokens <;> cases failure <;> rfl

theorem fetch_succ : fetch stream (depth + 1) file =
    (fetch stream depth file).map fun cursor => { cursor with depth := cursor.depth + 1 } := by
  obtain ⟨tokens, failure⟩ := stream
  cases tokens <;> cases failure <;> rfl

theorem result_deeper (x : Reading α) (cursor : Cursor) :
    result (deeper x cursor) = (result (x { cursor with depth := cursor.depth + 1 })).map
      fun (value, after) => (value, { after with depth := after.depth - 1 }) := by
  unfold deeper
  cases x { cursor with depth := cursor.depth + 1 } <;> rfl

/-- The cursor in front of a stream sees its first token and has all of them ahead. -/
theorem fetch_ok {cursor : Cursor} (h : fetch stream depth file = .ok cursor) :
    cursor.current = stream.tokens.head? ∧ cursor.pending = stream.tokens ∧
      cursor.depth = depth := by
  obtain ⟨tokens, failure⟩ := stream
  cases tokens <;> cases failure <;> cases h <;> exact ⟨rfl, rfl, rfl⟩

end

/-- Reading a stream starts at the cursor in front of it. -/
theorem readTokens_eq (stream : Scan) (file : Option String) :
    readTokens stream file = (fetch stream 0 file).bind fun cursor =>
      (result (script cursor)).map Prod.fst := by
  obtain ⟨tokens, failure⟩ := stream
  rcases tokens with _ | ⟨token, tokens⟩
  · rcases failure with _ | failure
    · simp only [readTokens, Cursor.start, fetch, Scan.next, Except.bind]
      cases script ⟨none, .finished, 0, file⟩ <;> rfl
    · rfl
  · simp only [readTokens, Cursor.start, fetch, Scan.next, Except.bind]
    cases script ⟨some token, ⟨tokens, failure⟩, 0, file⟩ <;> rfl

/-! ### What comes next -/

/-- What comes next is none of the given marks. -/
def Clear (marks : List String) (next : Option Lexeme) : Prop :=
  ∀ mark ∈ marks, next ≠ some (.punctuator mark)

theorem Clear.mono {marks marks' : List String} {next : Option Lexeme} (h : Clear marks' next)
    (hsubset : marks ⊆ marks') : Clear marks next := by
  intro mark hmark
  have hmark' : mark ∈ marks' := hsubset hmark
  exact h mark hmark'

/-- A reading takes exactly the given lexemes and gives the given value, whatever stream comes behind
them, if it starts with none of the given marks. -/
def Reads (depth : Nat) (marks : List String) (x : Reading α) (lexemes : List Lexeme) (value : α) :
    Prop :=
  ∀ (tokens : List Token) (rest : Scan) (file : Option String) (cursor : Cursor),
    tokens.map (·.lexeme) = lexemes → Clear marks rest.first →
    fetch (rest.prepend tokens) depth file = .ok cursor →
    result (x cursor) = (fetch rest depth file).map (value, ·)

namespace Reads

variable {depth : Nat} {marks marks' : List String} {lexemes lexemes' : List Lexeme}

theorem mono {x : Reading α} {value : α} (h : Reads depth marks x lexemes value)
    (hsubset : marks ⊆ marks') : Reads depth marks' x lexemes value := by
  intro tokens rest file cursor hlexemes hclear hfetch
  have hclear' : Clear marks rest.first := hclear.mono hsubset
  exact h tokens rest file cursor hlexemes hclear' hfetch

theorem pure (value : α) : Reads depth marks (Pure.pure value) [] value := by
  intro tokens rest file cursor hlexemes _ hfetch
  obtain rfl := List.map_eq_nil_iff.1 hlexemes
  rw [show fetch rest depth file = .ok cursor from hfetch]
  rfl

/-- One reading behind another. The lexemes of the second must not look like more of the first. -/
theorem bind {x : Reading α} {f : α → Reading β} {first : α} {value : β}
    (hx : Reads depth marks' x lexemes first) (hf : Reads depth marks (f first) lexemes' value)
    (hnext : ∀ next, Clear marks next → Clear marks' (lexemes'.head?.or next)) :
    Reads depth marks (x >>= f) (lexemes ++ lexemes') value := by
  intro tokens rest file cursor hlexemes hclear hfetch
  obtain ⟨tokens, tokens', rfl, rfl, rfl⟩ := List.map_eq_append_iff.1 hlexemes
  rw [Scan.prepend_append] at hfetch
  have hclear' : Clear marks' (rest.prepend tokens').first := by
    rw [Scan.first_prepend]
    exact hnext _ hclear
  rw [result_bind, hx tokens (rest.prepend tokens') file cursor rfl hclear' hfetch]
  cases hmiddle : fetch (rest.prepend tokens') depth file with
  | error stop =>
    -- the stream fails between the two, so the second has no token and the rest fails likewise
    rw [(fetch_error hmiddle).2]
    rfl
  | ok middle => exact hf tokens' rest file middle rfl hclear hmiddle

/-- One reading behind another that stops of its own accord. -/
theorem andThen {x : Reading α} {f : α → Reading β} {first : α} {value : β}
    (hx : Reads depth [] x lexemes first) (hf : Reads depth marks (f first) lexemes' value) :
    Reads depth marks (x >>= f) (lexemes ++ lexemes') value := by
  have hnext : ∀ next, Clear marks next → Clear [] (lexemes'.head?.or next) := by
    intro next _ mark hmark
    exact absurd hmark List.not_mem_nil
  exact hx.bind hf hnext

/-- A reading behind which nothing more is taken. -/
theorem ending {x : Reading α} {f : α → Reading β} {first : α} {value : β}
    (hx : Reads depth marks x lexemes first) (hf : Reads depth marks (f first) [] value) :
    Reads depth marks (x >>= f) lexemes value := by
  have hnext : ∀ next, Clear marks next → Clear marks (([] : List Lexeme).head?.or next) := by
    intro next hclear
    exact hclear
  rw [← List.append_nil lexemes]
  exact hx.bind hf hnext

/-- A reading whose value is built into something else. -/
theorem giving {x : Reading α} {value : α} (build : α → β)
    (hx : Reads depth marks x lexemes value) :
    Reads depth marks (x >>= fun value => Pure.pure (build value)) lexemes (build value) :=
  hx.ending (pure _)

theorem advance {f : Option Token → Reading β} {lexeme : Lexeme} {value : β}
    (hf : ∀ line, Reads depth marks (f (some ⟨lexeme, line⟩)) lexemes value) :
    Reads depth marks (Reading.advance >>= f) (lexeme :: lexemes) value := by
  intro tokens rest file cursor hlexemes hclear hfetch
  obtain ⟨⟨_, line⟩, tokens, rfl, rfl, rfl⟩ := List.map_eq_cons_iff.1 hlexemes
  rw [fetch_cons] at hfetch
  obtain rfl := Except.ok.inj hfetch
  rw [result_bind, result_advance]
  cases hmiddle : fetch (rest.prepend tokens) depth file with
  | error stop =>
    rw [(fetch_error hmiddle).2]
    rfl
  | ok middle => exact hf line tokens rest file middle rfl hclear hmiddle

/-- Looking at the token ahead. Behind the last lexeme, all that is known of it are the marks that it
is not. -/
theorem current {f : Option Token → Reading β} {value : β}
    (hf : ∀ token next, Clear marks next → token.map (·.lexeme) = lexemes.head?.or next →
      Reads depth marks (f token) lexemes value) :
    Reads depth marks (Reading.current >>= f) lexemes value := by
  intro tokens rest file cursor hlexemes hclear hfetch
  rw [current_bind]
  refine hf cursor.current rest.first hclear ?_ tokens rest file cursor hlexemes hclear hfetch
  rw [(fetch_ok hfetch).1, ← hlexemes, ← Scan.first_prepend]
  rfl

theorem current_cons {f : Option Token → Reading β} {lexeme : Lexeme} {value : β}
    (hf : ∀ line, Reads depth marks (f (some ⟨lexeme, line⟩)) (lexeme :: lexemes) value) :
    Reads depth marks (Reading.current >>= f) (lexeme :: lexemes) value := by
  apply current
  intro token next _ htoken
  obtain ⟨⟨_, line⟩, rfl, rfl⟩ := Option.map_eq_some_iff.1 htoken
  exact hf line

/-- The mark that is looked for comes next. -/
theorem found {f : Bool → Reading β} (mark : String) {value : β}
    (hf : Reads depth marks (f true) (.punctuator mark :: lexemes) value) :
    Reads depth marks (atPunctuator mark >>= f) (.punctuator mark :: lexemes) value := by
  rw [atPunctuator_eq, bind_assoc]
  apply current_cons
  intro line
  simpa [Token.isPunctuator] using hf

/-- The mark that is looked for does not come next. -/
theorem absent {f : Bool → Reading β} (mark : String) {value : β}
    (hnext : ∀ next, Clear marks next → lexemes.head?.or next ≠ some (.punctuator mark))
    (hf : Reads depth marks (f false) lexemes value) :
    Reads depth marks (atPunctuator mark >>= f) lexemes value := by
  rw [atPunctuator_eq, bind_assoc]
  apply current
  intro token next hclear htoken
  have hnone : token.any (·.isPunctuator mark) = false := by
    have hother := hnext next hclear
    rw [← htoken] at hother
    cases token with
    | none => rfl
    | some token => simpa [Token.isPunctuator] using hother
  rw [hnone, pure_bind]
  exact hf

theorem eat {mark : String} {x : Reading β} {value : β}
    (hx : Reads depth marks x lexemes value) :
    Reads depth marks (Reading.eat mark >>= fun _ => x) (.punctuator mark :: lexemes) value := by
  rw [eat_eq, bind_assoc]
  apply advance
  intro line
  simpa [Token.isPunctuator] using hx

theorem deeper {x : Reading α} {value : α} (hx : Reads (depth + 1) marks x lexemes value) :
    Reads depth marks (Reading.deeper x) lexemes value := by
  intro tokens rest file cursor hlexemes hclear hfetch
  have hinner := hx tokens rest file { cursor with depth := cursor.depth + 1 } hlexemes hclear
    (by rw [fetch_succ, hfetch]; rfl)
  rw [result_deeper, hinner, fetch_succ]
  cases fetch rest depth file <;> rfl

/-- There are more rounds than lexemes to be read. -/
theorem rounds {f : Nat → Reading α} {value : α}
    (hf : ∀ rounds, lexemes.length < rounds → Reads depth marks (f rounds) lexemes value) :
    Reads depth marks (fun cursor => f (cursor.pending.length + 1) cursor) lexemes value := by
  intro tokens rest file cursor hlexemes hclear hfetch
  refine hf _ ?_ tokens rest file cursor hlexemes hclear hfetch
  rw [(fetch_ok hfetch).2.1, ← hlexemes, List.length_map]
  simp only [Scan.prepend, List.length_append]
  omega

theorem room {f : Nat → Reading α} {value : α}
    (hf : Reads depth marks (f (maxNesting - depth)) lexemes value) :
    Reads depth marks (withRoom f) lexemes value := by
  intro tokens rest file cursor hlexemes hclear hfetch
  rw [withRoom, (fetch_ok hfetch).2.2]
  exact hf tokens rest file cursor hlexemes hclear hfetch

end Reads

/-! ### Lists -/

/-- Lexemes that start with no punctuator, so that nothing that may end or separate items is mistaken
for them. -/
def Opens (lexemes : List Lexeme) : Prop :=
  ∃ first rest, lexemes = first :: rest ∧ ∀ mark, first ≠ .punctuator mark

theorem Opens.clear {lexemes : List Lexeme} (h : Opens lexemes) (marks : List String)
    (next : Option Lexeme) : Clear marks (lexemes.head?.or next) := by
  obtain ⟨first, rest, rfl, hfirst⟩ := h
  intro mark _ hmark
  exact hfirst mark (Option.some.inj hmark)

theorem Opens.append {lexemes : List Lexeme} (h : Opens lexemes) (lexemes' : List Lexeme) :
    Opens (lexemes ++ lexemes') := by
  obtain ⟨first, rest, rfl, hfirst⟩ := h
  exact ⟨first, rest ++ lexemes', rfl, hfirst⟩

theorem Opens.length_pos {lexemes : List Lexeme} (h : Opens lexemes) : 0 < lexemes.length := by
  obtain ⟨first, rest, rfl, -⟩ := h
  exact Nat.succ_pos _

/-- Items with a comma between every two of them. -/
def commaSeparated : List (List Lexeme) → List Lexeme
  | [] => []
  | first :: others => first ++ others.flatMap (.punctuator "," :: ·)

namespace Reads

variable {depth : Nat} {marks inner : List String} {item : Reading Tree}
  {lexemes : σ → List Lexeme} {tree : σ → Tree}

/-- An item at the head of a list, and what the list goes on with. -/
theorem listUpTo_cons {close : String} {rounds : Nat} {first : σ} {after : List Lexeme}
    {others : List Tree} (hitem : Reads depth inner item (lexemes first) (tree first))
    (hopens : Opens (lexemes first))
    (hnext : ∀ next, Clear marks next → Clear inner (after.head?.or next))
    (hothers : Reads depth marks (listUpTo close item rounds) after others) :
    Reads depth marks (listUpTo close item (rounds + 1)) (lexemes first ++ after)
      (tree first :: others) := by
  have hboth : Reads depth marks (do
      let first ← item
      let others ← listUpTo close item rounds
      return first :: others) (lexemes first ++ after) (tree first :: others) :=
    hitem.bind (hothers.giving (tree first :: ·)) hnext
  obtain ⟨lexeme, more, hlexemes, hfirst⟩ := hopens.append after
  rw [hlexemes] at hboth ⊢
  apply current_cons
  intro line
  simpa [Token.isPunctuator, hfirst] using hboth

/-- Behind an item there is a comma or the closing bracket. -/
theorem clear_behind_item {close : String} (hinner : close ∉ inner ∧ "," ∉ inner) (items : List σ)
    (next : Option Lexeme) :
    Clear inner ((items.flatMap (Lexeme.punctuator "," :: lexemes ·) ++
      [Lexeme.punctuator close]).head?.or next) := by
  rintro mark hmark heq
  cases items with
  | nil =>
    obtain rfl : close = mark := by simpa using heq
    exact hinner.1 hmark
  | cons first others =>
    obtain rfl : "," = mark := by simpa using heq
    exact hinner.2 hmark

/-- The rest of a list, from behind an item. -/
theorem listUpTo_more {close : String} {items : List σ} (hclose : close ≠ ",")
    (hinner : close ∉ inner ∧ "," ∉ inner)
    (hitems : ∀ s ∈ items, Reads depth inner item (lexemes s) (tree s) ∧ Opens (lexemes s))
    (rounds : Nat)
    (h : (items.flatMap (Lexeme.punctuator "," :: lexemes ·)).length < rounds) :
    Reads depth marks (listUpTo close item rounds)
      (items.flatMap (Lexeme.punctuator "," :: lexemes ·) ++ [.punctuator close])
      (items.map tree) := by
  induction items generalizing rounds with
  | nil =>
    obtain ⟨rounds, rfl⟩ : ∃ n, rounds = n + 1 := ⟨rounds - 1, by omega⟩
    apply current_cons
    intro line
    dsimp only
    rw [if_pos (by simp [Token.isPunctuator])]
    exact advance fun _ => pure []
  | cons first others ih =>
    obtain ⟨hfirst, hopens⟩ := hitems first (List.mem_cons_self ..)
    have hothers := ih fun s hs => hitems s (List.mem_cons_of_mem first hs)
    have hlength := hopens.length_pos
    simp only [List.flatMap_cons, List.length_append, List.length_cons] at h
    obtain ⟨rounds, rfl⟩ : ∃ n, rounds = n + 2 := ⟨rounds - 2, by omega⟩
    have hitem := listUpTo_cons hfirst hopens
      (fun next _ => clear_behind_item hinner others next) (hothers rounds (by omega))
    rw [List.flatMap_cons, List.cons_append, List.cons_append, List.append_assoc]
    apply current_cons
    intro line
    simpa [Token.isPunctuator, hclose.symm] using advance fun _ => hitem

/-- **A list** of items with commas between them, up to the closing bracket. -/
theorem list {close : String} {items : List σ} (hclose : close ≠ ",")
    (hinner : close ∉ inner ∧ "," ∉ inner)
    (hitems : ∀ s ∈ items, Reads depth inner item (lexemes s) (tree s) ∧ Opens (lexemes s)) :
    Reads depth marks (Grammar.list close item)
      (commaSeparated (items.map lexemes) ++ [.punctuator close]) (items.map tree) := by
  apply rounds
  intro rounds h
  cases items with
  | nil => exact listUpTo_more hclose hinner hitems rounds (Nat.zero_lt_of_lt h)
  | cons first others =>
    obtain ⟨hfirst, hopens⟩ := hitems first (List.mem_cons_self ..)
    obtain ⟨rounds, rfl⟩ : ∃ n, rounds = n + 1 := ⟨rounds - 1, by omega⟩
    have hlength := hopens.length_pos
    simp only [List.map_cons, commaSeparated, List.flatMap_map, List.append_assoc,
      List.length_append] at h ⊢
    refine listUpTo_cons hfirst hopens (fun next _ => clear_behind_item hinner others next) ?_
    exact listUpTo_more hclose hinner (fun s hs => hitems s (List.mem_cons_of_mem first hs)) rounds
      (by omega)

/-- Behind an element there is another one or the closing brace. -/
theorem clear_behind_element {items : List σ} (hinner : "\x7d" ∉ inner)
    (hopens : ∀ s ∈ items, Opens (lexemes s)) (next : Option Lexeme) :
    Clear inner ((items.flatMap lexemes ++ [Lexeme.punctuator "\x7d"]).head?.or next) := by
  cases items with
  | nil =>
    rintro mark hmark heq
    obtain rfl : "\x7d" = mark := by simpa using heq
    exact hinner hmark
  | cons first others =>
    rw [List.flatMap_cons, List.append_assoc]
    exact ((hopens first (List.mem_cons_self ..)).append _).clear inner next

/-- **Elements up to the closing brace.** Each of them has to leave alone what the next may start
with, and the brace. -/
theorem elementsUpToBrace {items : List σ} (hinner : "\x7d" ∉ inner)
    (hitems : ∀ s ∈ items, Reads depth inner item (lexemes s) (tree s) ∧ Opens (lexemes s))
    (rounds : Nat) (h : (items.flatMap lexemes).length < rounds) :
    Reads depth marks (Grammar.elementsUpToBrace item rounds)
      (items.flatMap lexemes ++ [.punctuator "\x7d"]) (items.map tree) := by
  induction items generalizing rounds with
  | nil =>
    obtain ⟨rounds, rfl⟩ : ∃ n, rounds = n + 1 := ⟨rounds - 1, by omega⟩
    apply current_cons
    intro line
    dsimp only
    rw [if_pos (by simp [Token.isPunctuator])]
    exact advance fun _ => pure []
  | cons first others ih =>
    obtain ⟨hfirst, hopens⟩ := hitems first (List.mem_cons_self ..)
    have hlength := hopens.length_pos
    simp only [List.flatMap_cons, List.length_append] at h
    obtain ⟨rounds, rfl⟩ : ∃ n, rounds = n + 1 := ⟨rounds - 1, by omega⟩
    have hothers := ih (fun s hs => hitems s (List.mem_cons_of_mem first hs)) rounds (by omega)
    have hboth : Reads depth marks (do
        let first ← item
        let others ← Grammar.elementsUpToBrace item rounds
        return first :: others)
        (lexemes first ++ (others.flatMap lexemes ++ [.punctuator "\x7d"]))
        (tree first :: others.map tree) := by
      refine hfirst.bind (hothers.giving (tree first :: ·)) fun next _ => ?_
      exact clear_behind_element hinner (fun s hs => (hitems s (List.mem_cons_of_mem first hs)).2)
        next
    rw [List.flatMap_cons, List.append_assoc]
    obtain ⟨lexeme, more, hlexemes, hmark⟩ :=
      hopens.append (others.flatMap lexemes ++ [.punctuator "\x7d"])
    rw [hlexemes] at hboth ⊢
    apply current_cons
    intro line
    simpa [Token.isPunctuator, hmark] using hboth

end Reads

end Grammar

end PageScript
