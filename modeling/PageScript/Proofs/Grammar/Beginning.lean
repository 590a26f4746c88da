import PageScript.Proofs.Grammar.Elements
import PageScript.Proofs.Grammar.Reads

/-!
# Reading the beginning of an input

A reading sees one token ahead and no further. What it makes of the beginning of an input is
therefore what it makes of the whole, so far as it does not owe it to the end of the beginning.

* `readOn` — what a reading makes of a stream;
* `Cut` — an input that is cut in two: how the tokens before the cut end, and what stands behind it;
* `Foretold` — how the readings of the beginning and of the whole may end, compared;
* `Foretells`, `Heralds` — readings that end so, on given tokens and on all plain ones;
* `Quiet`, `Hopeless` — a reading that, at the end of the input, gives a value or asks for a
  punctuator, and one that fails wherever it starts;
* `Foretells.bind`, `Foretells.bindAtEnd` — one reading behind another;
* `Heralds.advance`, `Heralds.option`, `Heralds.loop` — the ways in which productions are put
  together.

A reading is *closed* if it cannot end well just because the input ends. Lists of arguments and of
parameters end silently there, so most productions are not closed; functions are.
-/

namespace PageScript

/-- The cursor behind the last token. -/
def Cursor.exhausted (depth : Nat) (file : Option String) : Cursor :=
  ⟨none, .finished, depth, file⟩

namespace Grammar

open Reading

variable {α β : Type}

/-- What a reading makes of a stream. -/
def readOn (x : Reading α) (stream : Scan) (depth : Nat) (file : Option String) :
    Except Stop (α × Cursor) :=
  (fetch stream depth file).bind fun cursor => result (x cursor)

/-- An input that is cut in two. -/
structure Cut where
  /-- What ends the tokens before the cut, if they do not end well. -/
  ending : Option Failure
  /-- What stands behind the cut. -/
  more : Scan

/-- The beginning, with the given tokens in it. -/
def Cut.beginning (cut : Cut) (tokens : List Token) : Scan := ⟨tokens, cut.ending⟩

/-- The whole, with the given tokens in its beginning. -/
def Cut.whole (cut : Cut) (tokens : List Token) : Scan := cut.more.prepend tokens

/-- How the reading of a beginning and the reading of the whole may end, compared. -/
inductive Foretold (cut : Cut) (closed : Bool) (tokens : List Token) (depth : Nat)
    (file : Option String) : Except Stop (α × Cursor) → Except Stop (α × Cursor) → Prop
  /-- Both give the same value and get to the same token. -/
  | same {value : α} {rest : List Token} {after : Cursor} : rest <:+ tokens →
      fetch (cut.beginning rest) depth file = .ok after →
      Foretold cut closed tokens depth file (.ok (value, after))
        ((fetch (cut.whole rest) depth file).map (value, ·))
  /-- The beginning is used up, and the reading has seen it. -/
  | spent {value : α} {whole : Except Stop (α × Cursor)} : closed = false → cut.ending = none →
      Foretold cut closed tokens depth file (.ok (value, .exhausted depth file)) whole
  /-- The reading meets what ends the beginning. -/
  | met {failure : Failure} {whole : Except Stop (α × Cursor)} : cut.ending = some failure →
      Foretold cut closed tokens depth file (.error (.failed failure)) whole
  /-- A punctuator is asked for where the beginning ends. -/
  | wanting {mark : String} {whole : Except Stop (α × Cursor)} : cut.ending = none →
      Foretold cut closed tokens depth file
        (.error (.failed (.structural (.expected mark none) file))) whole
  /-- Both stop in the same way. -/
  | settled {cause : StructuralCause} :
      Foretold cut closed tokens depth file (.error (.failed (.structural cause file)))
        (.error (.failed (.structural cause file)))
  /-- The beginning is used up, and nothing behind it can save it. -/
  | doomed {cause : StructuralCause} {stop : Stop} : cut.ending = none →
      Foretold cut closed tokens depth file (.error (.failed (.structural cause file)))
        (.error stop)

/-- What the first reading makes of the beginning foretells what the second makes of the whole. -/
def Foretells (cut : Cut) (closed : Bool) (tokens : List Token) (x y : Reading α) : Prop :=
  ∀ depth file, Foretold cut closed tokens depth file
    (readOn x (cut.beginning tokens) depth file) (readOn y (cut.whole tokens) depth file)

/-- A reading of which the beginning foretells the whole, whatever plain tokens are in it. -/
def Heralds (cut : Cut) (closed : Bool) (x : Reading α) : Prop :=
  ∀ tokens : List Token, (∀ token ∈ tokens, token.IsPlain) → Foretells cut closed tokens x x

/-- A reading that takes the end of the input quietly: it asks for a punctuator or, unless it is
closed, gives a value. -/
def Quiet (closed : Bool) (x : Reading α) : Prop :=
  ∀ depth file,
    (closed = false ∧ ∃ value, result (x (.exhausted depth file)) =
      .ok (value, .exhausted depth file)) ∨
    ∃ mark, result (x (.exhausted depth file)) =
      .error (.failed (.structural (.expected mark none) file))

/-- A reading gives a value, and just these tokens of the beginning are left behind it. -/
def Leaves (cut : Cut) (tokens : List Token) (x : Reading α) (value : α) (rest : List Token) : Prop :=
  ∃ depth file cursor after, fetch (cut.beginning tokens) depth file = .ok cursor ∧
    x cursor = .ok value after ∧ fetch (cut.beginning rest) depth file = .ok after

/-- A reading that fails wherever it starts. -/
def Hopeless (x : Reading α) : Prop :=
  ∀ cursor, ∃ cause, result (x cursor) = .error (.failed (.structural cause cursor.file))

theorem Hopeless.halt {x : Reading α} (h : Hopeless x) (f : α → Reading β) : Hopeless (x >>= f) := by
  intro cursor
  obtain ⟨cause, hcause⟩ := h cursor
  exact ⟨cause, by rw [result_bind, hcause]; rfl⟩

theorem Hopeless.tooDeep : Hopeless (tooDeep : Reading α) := fun _ => ⟨_, rfl⟩

/-! ### Readings on streams -/

section

variable {stream : Scan} {depth : Nat} {file : Option String}

theorem readOn_bind (x : Reading α) (f : α → Reading β) :
    readOn (x >>= f) stream depth file =
      (readOn x stream depth file).bind fun (value, after) => result (f value after) := by
  unfold readOn
  cases fetch stream depth file with
  | error stop => rfl
  | ok cursor => exact result_bind x f cursor

theorem readOn_pure (value : α) :
    readOn (pure value) stream depth file = (fetch stream depth file).map (value, ·) := by
  unfold readOn
  cases fetch stream depth file <;> rfl

theorem readOn_of_fetch {cursor : Cursor} (h : fetch stream depth file = .ok cursor)
    (x : Reading α) : readOn x stream depth file = result (x cursor) := by
  rw [readOn, h]
  rfl

theorem readOn_ok {x : Reading α} {value : α} {after : Cursor}
    (h : readOn x stream depth file = .ok (value, after)) :
    ∃ cursor, fetch stream depth file = .ok cursor ∧ x cursor = .ok value after := by
  unfold readOn at h
  cases hfetch : fetch stream depth file with
  | error stop =>
    rw [hfetch] at h
    cases h
  | ok cursor =>
    rw [hfetch] at h
    have hresult : result (x cursor) = .ok (value, after) := h
    refine ⟨cursor, rfl, ?_⟩
    cases hx : x cursor with
    | ok value' after' =>
      rw [hx] at hresult
      cases hresult
      rfl
    | error stop after' =>
      rw [hx] at hresult
      cases hresult

theorem readOn_advance (token : Token) (f : Option Token → Reading β) :
    readOn (advance >>= f) (.push token stream) depth file =
      readOn (f (some token)) stream depth file := by
  rw [readOn_bind]
  show Except.bind (result (advance ⟨some token, stream, depth, file⟩)) _ = _
  rw [result_advance]
  unfold readOn
  cases fetch stream depth file <;> rfl

theorem readOn_deeper (x : Reading α) :
    readOn (deeper x) stream depth file = (readOn x stream (depth + 1) file).map
      fun (value, after) => (value, { after with depth := after.depth - 1 }) := by
  unfold readOn
  rw [fetch_succ]
  cases fetch stream depth file with
  | error stop => rfl
  | ok cursor => exact result_deeper x cursor

theorem readOn_withRoom (f : Nat → Reading α) :
    readOn (withRoom f) stream depth file = readOn (f (maxNesting - depth)) stream depth file := by
  unfold readOn
  cases h : fetch stream depth file with
  | error stop => rfl
  | ok cursor =>
    show result (f (maxNesting - cursor.depth) cursor) = _
    rw [(fetch_ok h).2.2]
    rfl

theorem readOn_rounds (f : Nat → Reading α) :
    readOn (fun cursor => f (cursor.pending.length + 1) cursor) stream depth file =
      readOn (f (stream.tokens.length + 1)) stream depth file := by
  unfold readOn
  cases h : fetch stream depth file with
  | error stop => rfl
  | ok cursor =>
    show result (f (cursor.pending.length + 1) cursor) = _
    rw [(fetch_ok h).2.1]
    rfl

end

section

variable {cut : Cut} {depth : Nat} {file : Option String}

/-- A beginning cannot be fetched from only if it is empty and fails. -/
theorem fetch_beginning_error {tokens : List Token} {stop : Stop}
    (h : fetch (cut.beginning tokens) depth file = .error stop) :
    ∃ failure, stop = .failed failure ∧ cut.ending = some failure := by
  obtain ⟨ending, more⟩ := cut
  cases tokens with
  | cons token tokens => cases h
  | nil =>
    cases ending with
    | none => cases h
    | some failure =>
      cases h
      exact ⟨failure, rfl, rfl⟩

/-- If it is empty and does not fail, there is nothing to be fetched. -/
theorem fetch_beginning_nil {cursor : Cursor}
    (h : fetch (cut.beginning []) depth file = .ok cursor) :
    cut.ending = none ∧ cursor = .exhausted depth file := by
  obtain ⟨ending, more⟩ := cut
  cases ending with
  | some failure => cases h
  | none =>
    cases h
    exact ⟨rfl, rfl⟩

end

theorem length_whole (cut : Cut) (tokens : List Token) :
    (cut.whole tokens).tokens.length = tokens.length + cut.more.tokens.length := by
  simp [Cut.whole, Scan.prepend]

/-- Fewer tokens are left behind a reading that takes one. -/
theorem Leaves.length_lt {cut : Cut} {x : Reading α} {token : Token} {tokens rest : List Token} {value : α}
    (h : Leaves cut (token :: tokens) x value rest) (htakes : Takes x) (hplain : token.IsPlain) :
    rest.length < (token :: tokens).length := by
  obtain ⟨depth, file, cursor, after, hcursor, hx, hafter⟩ := h
  obtain ⟨hcurrent, hpending, -⟩ := fetch_ok hcursor
  have hless := htakes cursor token value after hcurrent hplain hx
  rwa [hpending, (fetch_ok hafter).2.1] at hless

theorem Leaves.element_there {cut : Cut} {token : Token} {tokens rest : List Token} {tree : Tree}
    (h : Leaves cut (token :: tokens) element tree rest) (hplain : token.IsPlain) :
    tree.isHole = false := by
  obtain ⟨depth, file, cursor, after, hcursor, hx, hafter⟩ := h
  exact elementWith_there (fetch_ok hcursor).1 hplain hx

/-! ### The end of the input -/

namespace Quiet

variable {closed : Bool}

theorem pure (value : α) : Quiet false (Pure.pure value : Reading α) :=
  fun _ _ => .inl ⟨rfl, value, rfl⟩

theorem bind {x : Reading α} {f : α → Reading β} (hx : Quiet false x)
    (hf : ∀ value, Quiet closed (f value)) : Quiet closed (x >>= f) := by
  intro depth file
  rw [result_bind]
  rcases hx depth file with ⟨-, value, hvalue⟩ | ⟨mark, hmark⟩
  · rw [hvalue]
    exact hf value depth file
  · rw [hmark]
    exact .inr ⟨mark, rfl⟩

/-- Behind a reading that is closed nothing is read at the end of the input. -/
theorem halt {x : Reading α} (hx : Quiet true x) (f : α → Reading β) : Quiet closed (x >>= f) := by
  intro depth file
  rw [result_bind]
  rcases hx depth file with ⟨hclosed, -⟩ | ⟨mark, hmark⟩
  · exact absurd hclosed (by simp)
  · rw [hmark]
    exact .inr ⟨mark, rfl⟩

theorem advance {f : Option Token → Reading β} (h : Quiet closed (f none)) :
    Quiet closed (Reading.advance >>= f) := h

theorem current {f : Option Token → Reading β} (h : Quiet closed (f none)) :
    Quiet closed (Reading.current >>= f) := h

theorem ahead {mark : String} {f : Bool → Reading β} (h : Quiet closed (f false)) :
    Quiet closed (atPunctuator mark >>= f) := h

theorem eat (mark : String) : Quiet true (Reading.eat mark) :=
  fun _ _ => .inr ⟨mark, rfl⟩

theorem deeper {x : Reading α} (hx : Quiet true x) : Quiet true (Reading.deeper x) := by
  intro depth file
  rw [result_deeper]
  rcases hx (depth + 1) file with ⟨hclosed, -⟩ | ⟨mark, hmark⟩
  · exact absurd hclosed (by simp)
  · refine .inr ⟨mark, ?_⟩
    show Except.map _ (result (x (.exhausted (depth + 1) file))) = _
    rw [hmark]
    rfl

end Quiet

/-! ### Putting readings together -/

section

variable {cut : Cut} {closed closed' : Bool} {tokens rest : List Token}

/-- What holds of the end of a beginning holds of the beginning, and of readings that may end with
it. -/
theorem Foretold.weaken {depth : Nat} {file : Option String}
    {short whole : Except Stop (α × Cursor)} (hrest : rest <:+ tokens)
    (hopen : closed' = false → closed = false)
    (h : Foretold cut closed' rest depth file short whole) :
    Foretold cut closed tokens depth file short whole := by
  cases h with
  | same hmore hfetch => exact .same (hmore.trans hrest) hfetch
  | spent hclosed hending => exact .spent (hopen hclosed) hending
  | met hending => exact .met hending
  | wanting hending => exact .wanting hending
  | settled => exact .settled
  | doomed hending => exact .doomed hending

theorem Foretold.suffix {depth : Nat} {file : Option String}
    {short whole : Except Stop (α × Cursor)} (hrest : rest <:+ tokens)
    (h : Foretold cut closed rest depth file short whole) :
    Foretold cut closed tokens depth file short whole :=
  h.weaken hrest id

theorem Quiet.foretold {x : Reading α} (h : Quiet closed x) (hending : cut.ending = none)
    (depth : Nat) (file : Option String) (whole : Except Stop (α × Cursor)) :
    Foretold cut closed tokens depth file (result (x (.exhausted depth file))) whole := by
  rcases h depth file with ⟨hclosed, value, hvalue⟩ | ⟨mark, hmark⟩
  · rw [hvalue]
    exact .spent hclosed hending
  · rw [hmark]
    exact .wanting hending

theorem Hopeless.readOn {x : Reading α} (h : Hopeless x) (stream : Scan) (depth : Nat)
    (file : Option String) : ∃ stop, readOn x stream depth file = .error stop := by
  unfold Grammar.readOn
  cases fetch stream depth file with
  | error stop => exact ⟨stop, rfl⟩
  | ok cursor =>
    obtain ⟨cause, hcause⟩ := h cursor
    exact ⟨_, hcause⟩

/-- A reading behind which nothing but failure is left. -/
theorem Hopeless.bind {x : Reading α} {f : α → Reading β} (h : ∀ value, Hopeless (f value))
    (stream : Scan) (depth : Nat) (file : Option String) :
    ∃ stop, Grammar.readOn (x >>= f) stream depth file = .error stop := by
  rw [readOn_bind]
  cases Grammar.readOn x stream depth file with
  | error stop => exact ⟨stop, rfl⟩
  | ok pair =>
    obtain ⟨cause, hcause⟩ := h pair.1 pair.2
    exact ⟨_, hcause⟩

namespace Foretells

theorem pure (value : α) :
    Foretells cut closed tokens (Pure.pure value) (Pure.pure value) := by
  intro depth file
  rw [readOn_pure, readOn_pure]
  cases hfetch : fetch (cut.beginning tokens) depth file with
  | error stop =>
    obtain ⟨failure, rfl, hending⟩ := fetch_beginning_error hfetch
    exact .met hending
  | ok after => exact .same (List.suffix_refl _) hfetch

/-- What is read where nothing is left of the beginning. -/
theorem nil {x y : Reading α}
    (h : cut.ending = none → ∀ depth file, Foretold cut closed [] depth file
      (result (x (.exhausted depth file))) (readOn y (cut.whole []) depth file)) :
    Foretells cut closed [] x y := by
  intro depth file
  cases hfetch : fetch (cut.beginning []) depth file with
  | error stop =>
    obtain ⟨failure, rfl, hending⟩ := fetch_beginning_error hfetch
    rw [readOn, hfetch]
    exact .met hending
  | ok cursor =>
    obtain ⟨hending, rfl⟩ := fetch_beginning_nil hfetch
    rw [readOn_of_fetch hfetch]
    exact h hending depth file

/-- Nothing is left of the beginning, and that is taken quietly. -/
theorem atEnd {x : Reading α} (h : Quiet closed x) (y : Reading α) : Foretells cut closed [] x y :=
  nil fun hending depth file => h.foretold hending depth file _

/-- Nothing is left of the beginning, and the whole is lost already. -/
theorem lost {x y : Reading α} (hx : Hopeless x) (hy : Hopeless y) :
    Foretells cut closed [] x y := by
  refine nil fun hending depth file => ?_
  obtain ⟨cause, hcause⟩ := hx (.exhausted depth file)
  obtain ⟨stop, hstop⟩ := hy.readOn (cut.whole []) depth file
  rw [hcause, hstop]
  exact .doomed hending

/-- One reading behind another. If the first may use up the beginning, what the second does at its
end has to foretell what becomes of the whole. -/
theorem bindAtEnd {x y : Reading α} {f g : α → Reading β} (hx : Foretells cut closed' tokens x y)
    (hf : ∀ value rest, rest <:+ tokens → Leaves cut tokens x value rest →
      Foretells cut closed rest (f value) (g value))
    (hend : closed' = false → cut.ending = none → ∀ value depth file,
      Foretold cut closed [] depth file (result (f value (.exhausted depth file)))
        (readOn (y >>= g) (cut.whole tokens) depth file)) :
    Foretells cut closed tokens (x >>= f) (y >>= g) := by
  intro depth file
  have hfirst := hx depth file
  have hlast : closed' = false → cut.ending = none → ∀ value, Foretold cut closed [] depth file
      (result (f value (.exhausted depth file)))
      (readOn (y >>= g) (cut.whole tokens) depth file) :=
    fun hopen hending value => hend hopen hending value depth file
  rw [readOn_bind] at hlast ⊢
  rw [readOn_bind]
  generalize hshort : readOn x (cut.beginning tokens) depth file = short at hfirst ⊢
  generalize readOn y (cut.whole tokens) depth file = whole at hfirst hlast ⊢
  cases hfirst with
  | @same value rest after hrest hfetch =>
    obtain ⟨cursor, hcursor, hvalue⟩ := readOn_ok hshort
    have hleaves : Leaves cut tokens x value rest :=
      ⟨depth, file, cursor, after, hcursor, hvalue, hfetch⟩
    have hsecond := hf value rest hrest hleaves depth file
    rw [readOn_of_fetch hfetch] at hsecond
    have hwhole : readOn (g value) (cut.whole rest) depth file =
        ((fetch (cut.whole rest) depth file).map (value, ·)).bind
          fun (value, after) => result (g value after) := by
      unfold readOn
      cases fetch (cut.whole rest) depth file <;> rfl
    rw [hwhole] at hsecond
    exact hsecond.suffix hrest
  | @spent value whole hopen hending => exact (hlast hopen hending value).suffix List.nil_suffix
  | met hending => exact .met hending
  | wanting hending => exact .wanting hending
  | settled => exact .settled
  | doomed hending => exact .doomed hending

/-- One reading behind another, which takes the end quietly. -/
theorem bind {x y : Reading α} {f g : α → Reading β} (hx : Foretells cut closed' tokens x y)
    (hf : ∀ value rest, rest <:+ tokens → Leaves cut tokens x value rest →
      Foretells cut closed rest (f value) (g value))
    (hend : ∀ value, Quiet closed (f value)) :
    Foretells cut closed tokens (x >>= f) (y >>= g) :=
  hx.bindAtEnd hf fun _ hending value depth file => (hend value).foretold hending depth file _

theorem deeper {x y : Reading α} (h : Foretells cut closed tokens x y) :
    Foretells cut closed tokens (Reading.deeper x) (Reading.deeper y) := by
  intro depth file
  have hinner := h (depth + 1) file
  rw [readOn_deeper, readOn_deeper]
  generalize readOn x (cut.beginning tokens) (depth + 1) file = short at hinner ⊢
  generalize readOn y (cut.whole tokens) (depth + 1) file = whole at hinner ⊢
  cases hinner with
  | @same value rest after hrest hfetch =>
    have hwhole : ((fetch (cut.whole rest) (depth + 1) file).map (value, ·)).map
        (fun (value, after) => (value, { after with depth := after.depth - 1 })) =
          (fetch (cut.whole rest) depth file).map (value, ·) := by
      rw [fetch_succ]
      cases fetch (cut.whole rest) depth file <;> rfl
    rw [fetch_succ] at hfetch
    rw [hwhole]
    cases hcursor : fetch (cut.beginning rest) depth file with
    | error stop =>
      rw [hcursor] at hfetch
      cases hfetch
    | ok cursor =>
      rw [hcursor] at hfetch
      obtain rfl := Except.ok.inj hfetch
      exact .same hrest hcursor
  | spent hopen hending => exact .spent hopen hending
  | met hending => exact .met hending
  | wanting hending => exact .wanting hending
  | settled => exact .settled
  | doomed hending => exact .doomed hending

theorem room {f g : Nat → Reading α} (h : ∀ room, Foretells cut closed tokens (f room) (g room)) :
    Foretells cut closed tokens (withRoom f) (withRoom g) := by
  intro depth file
  rw [readOn_withRoom, readOn_withRoom]
  exact h (maxNesting - depth) depth file

/-- A loop has more rounds than there are tokens. -/
theorem rounds {f g : Nat → Reading α}
    (h : ∀ rounds rounds', tokens.length < rounds → (cut.whole tokens).tokens.length < rounds' →
      Foretells cut closed tokens (f rounds) (g rounds')) :
    Foretells cut closed tokens (fun cursor => f (cursor.pending.length + 1) cursor)
      (fun cursor => g (cursor.pending.length + 1) cursor) := by
  intro depth file
  rw [readOn_rounds, readOn_rounds]
  exact h _ _ (Nat.lt_succ_self _) (Nat.lt_succ_self _) depth file

theorem current_cons {f g : Option Token → Reading β} {token : Token}
    (h : Foretells cut closed (token :: rest) (f (some token)) (g (some token))) :
    Foretells cut closed (token :: rest) (current >>= f) (current >>= g) := h

theorem ahead_cons {mark : String} {f g : Bool → Reading β} {token : Token}
    (h : Foretells cut closed (token :: rest) (f (token.isPunctuator mark))
      (g (token.isPunctuator mark))) :
    Foretells cut closed (token :: rest) (atPunctuator mark >>= f) (atPunctuator mark >>= g) := h

theorem advance_cons {f g : Option Token → Reading β} {token : Token}
    (h : Foretells cut closed rest (f (some token)) (g (some token))) :
    Foretells cut closed (token :: rest) (advance >>= f) (advance >>= g) := by
  intro depth file
  have hbeginning : cut.beginning (token :: rest) = .push token (cut.beginning rest) := rfl
  have hwhole : cut.whole (token :: rest) = .push token (cut.whole rest) := rfl
  rw [hbeginning, hwhole, readOn_advance, readOn_advance]
  exact (h depth file).suffix (List.suffix_cons token rest)

/-- A reading that stops at a token. -/
theorem refuse (cause : StructuralCause) :
    Foretells cut closed tokens (Reading.refuse cause : Reading α) (Reading.refuse cause) := by
  have hhopeless : Hopeless (Reading.refuse cause : Reading α) := fun cursor => ⟨cause, rfl⟩
  cases tokens with
  | nil => exact lost hhopeless hhopeless
  | cons token tokens => exact fun depth file => .settled

end Foretells

/-! ### Plain tokens -/

namespace Heralds

theorem pure (value : α) : Heralds cut closed (Pure.pure value : Reading α) :=
  fun _ _ => .pure value

theorem opened {x : Reading α} (h : Heralds cut closed x) : Heralds cut false x :=
  fun tokens hplain depth file =>
    (h tokens hplain depth file).weaken (List.suffix_refl tokens) fun _ => rfl

/-- What is left of plain tokens is plain. -/
theorem behind {x : Reading α} (hx : Heralds cut closed x) (hplain : ∀ t ∈ tokens, t.IsPlain)
    (hrest : rest <:+ tokens) : Foretells cut closed rest x x :=
  hx rest fun token htoken => hplain token (hrest.subset htoken)

/-- One reading behind another, which takes the end quietly. -/
theorem bind {x : Reading α} {f : α → Reading β} (hx : Heralds cut closed' x)
    (hf : ∀ value, Heralds cut closed (f value)) (hend : ∀ value, Quiet closed (f value)) :
    Heralds cut closed (x >>= f) := by
  intro tokens hplain
  exact (hx tokens hplain).bind (fun value rest hrest _ => (hf value).behind hplain hrest) hend

/-- A closed reading and what stands behind it. -/
theorem andThen {x : Reading α} {f : α → Reading β} (hx : Heralds cut true x)
    (hf : ∀ value, Heralds cut closed (f value)) : Heralds cut closed (x >>= f) := by
  intro tokens hplain
  exact (hx tokens hplain).bindAtEnd (fun value rest hrest _ => (hf value).behind hplain hrest)
    fun hopen => absurd hopen (by simp)

/-- A reading behind which nothing but failure is left. -/
theorem doom {x : Reading α} {f : α → Reading β} (hx : Heralds cut closed' x)
    (hf : ∀ value, Heralds cut closed (f value)) (hend : ∀ value, Hopeless (f value)) :
    Heralds cut closed (x >>= f) := by
  intro tokens hplain
  refine (hx tokens hplain).bindAtEnd (fun value rest hrest _ => (hf value).behind hplain hrest)
    fun _ hending value depth file => ?_
  obtain ⟨cause, hcause⟩ := hend value (.exhausted depth file)
  obtain ⟨stop, hstop⟩ := Hopeless.bind hend (cut.whole tokens) depth file
  rw [hcause, hstop]
  exact .doomed hending

/-- A reading whose value is built into something else. -/
theorem giving {x : Reading α} (hx : Heralds cut closed x) (build : α → β) :
    Heralds cut closed (x >>= fun value => Pure.pure (build value)) := by
  cases closed with
  | true => exact hx.andThen fun value => pure (build value)
  | false => exact hx.bind (fun value => pure (build value)) fun value => .pure (build value)

theorem advance {f : Option Token → Reading β} (hf : ∀ token, Heralds cut closed (f (some token)))
    (hend : Quiet closed (f none)) : Heralds cut closed (Reading.advance >>= f) := by
  intro tokens hplain
  cases tokens with
  | nil => exact .atEnd hend.advance _
  | cons token tokens =>
    exact .advance_cons ((hf token).behind hplain (List.suffix_cons token tokens))

theorem current {f : Option Token → Reading β}
    (hf : ∀ token rest, (∀ t ∈ token :: rest, t.IsPlain) →
      Foretells cut closed (token :: rest) (f (some token)) (f (some token)))
    (hend : Quiet closed (f none)) : Heralds cut closed (Reading.current >>= f) := by
  intro tokens hplain
  cases tokens with
  | nil => exact .atEnd hend.current _
  | cons token rest => exact .current_cons (hf token rest hplain)

/-- A reading behind a token that is there. -/
theorem skip {x : Reading α} (hx : Heralds cut closed x) {token : Token} {rest : List Token}
    (hplain : ∀ t ∈ token :: rest, t.IsPlain) :
    Foretells cut closed (token :: rest) (Reading.advance >>= fun _ => x)
      (Reading.advance >>= fun _ => x) :=
  .advance_cons (hx.behind hplain (List.suffix_cons token rest))

/-- A part that is read behind a mark, and only there. -/
theorem option (mark : String) {x other : Reading β} (hx : Heralds cut closed x)
    (hother : Heralds cut closed other) (hend : Quiet closed other) :
    Heralds cut closed (atPunctuator mark >>= fun found =>
      if found then Reading.advance >>= fun _ => x else other) := by
  intro tokens hplain
  cases tokens with
  | nil => exact .atEnd (Quiet.ahead hend) _
  | cons token rest =>
    apply Foretells.ahead_cons
    cases token.isPunctuator mark with
    | true => exact skip hx hplain
    | false => exact hother _ hplain

/-- A part that is read behind a sign, and only there. -/
theorem signed {f : Operator → Reading β} {other : Reading β}
    (hf : ∀ operator, Heralds cut closed (f operator)) (hother : Heralds cut closed other)
    (hend : Quiet closed other) :
    Heralds cut closed (Reading.current >>= fun token =>
      match token.bind additiveOperator? with
      | some operator => Reading.advance >>= fun _ => f operator
      | none => other) := by
  apply current
  · intro token rest hplain
    cases (some token).bind additiveOperator? with
    | some operator => exact skip (hf operator) hplain
    | none => exact hother _ hplain
  · exact hend

theorem deeper {x : Reading α} (hx : Heralds cut closed x) : Heralds cut closed (Reading.deeper x) :=
  fun tokens hplain => (hx tokens hplain).deeper

theorem room {f : Nat → Reading α} (hf : ∀ room, Heralds cut closed (f room)) :
    Heralds cut closed (withRoom f) :=
  fun tokens hplain => .room fun room => hf room tokens hplain

/-- **A loop**, whose rounds exceed the tokens that are left. A round that leaves fewer tokens than
it found may rely on the rounds that follow. -/
theorem loop {f : Nat → Reading α} (hend : ∀ rounds, Quiet closed (f (rounds + 1)))
    (hstep : ∀ rounds rounds' token tokens, (∀ t ∈ token :: tokens, t.IsPlain) →
      Quiet closed (f rounds) →
      (∀ rest, rest <:+ token :: tokens → rest.length < (token :: tokens).length →
        Foretells cut closed rest (f rounds) (f rounds')) →
      Foretells cut closed (token :: tokens) (f (rounds + 1)) (f (rounds' + 1))) :
    Heralds cut closed (fun cursor => f (cursor.pending.length + 1) cursor) := by
  intro tokens hplain
  apply Foretells.rounds
  intro rounds rounds' h h'
  rw [length_whole] at h'
  -- the two readings have different numbers of rounds, so the induction is on those of the first
  induction rounds generalizing rounds' tokens with
  | zero => omega
  | succ rounds ih =>
    obtain ⟨rounds', rfl⟩ : ∃ n, rounds' = n + 1 := ⟨rounds' - 1, by omega⟩
    cases tokens with
    | nil => exact .atEnd (hend rounds) _
    | cons token tokens =>
      rw [List.length_cons] at h h'
      obtain ⟨n, rfl⟩ : ∃ n, rounds = n + 1 := ⟨rounds - 1, by omega⟩
      refine hstep (n + 1) rounds' token tokens hplain (hend n) fun rest hrest hless => ?_
      rw [List.length_cons] at hless
      exact ih rest (fun t ht => hplain t (hrest.subset ht)) rounds' (by omega) (by omega)

end Heralds

end

end Grammar

end PageScript
