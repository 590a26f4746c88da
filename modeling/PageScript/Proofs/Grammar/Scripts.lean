import PageScript.Proofs.Grammar.Reads

/-!
# Reading whole scripts

What is known of single elements is carried to the scripts that they make up.

* `elementsUpToHole_reads`, `readTokens_items` — elements that read as they should are taken off the
  front of a stream, one after the other, and what stands behind them is read as if by itself;
* `Refuses` — a reading stops for a cause of its own in front of these tokens, whatever comes behind
  them; `Refuses.first`, `Refuses.behind`, `Refuses.advance` and so on — one rule for each move;
* `readTokens_refuses` — a script whose first element is refused is refused for the same cause.
-/

namespace PageScript.Grammar

open Reading

variable {α β σ : Type} {depth : Nat} {marks : List String}

/-! ### Scripts that are read -/

theorem result_elementsUpToHole (rounds : Nat) (cursor : Cursor) :
    result (elementsUpToHole element (rounds + 1) cursor) =
      (result (element cursor)).bind fun (first, after) =>
        if first.isHole then .ok ([], after)
        else (result (elementsUpToHole element rounds after)).map
          fun (others, last) => (first :: others, last) := by
  rw [elementsUpToHole_succ]
  cases element cursor with
  | ok first after =>
    by_cases hhole : first.isHole
    · simp only [hhole, if_true, result, Except.bind]
    · simp only [hhole, result, Except.bind]
      cases elementsUpToHole element rounds after <;> rfl
  | error stop after => rfl

/-- An item that is read as an element: its lexemes start with no mark, and its tree is no hole. -/
structure Item (marks : List String) (lexemes : List Lexeme) (tree : Tree) : Prop where
  reads : Reads 0 marks element lexemes tree
  opens : Opens lexemes
  present : tree.isHole = false

/-- Items take at least one lexeme each. -/
theorem length_le_flatMap {items : List σ} {lexemes : σ → List Lexeme} {tree : σ → Tree}
    (hitems : ∀ s ∈ items, Item marks (lexemes s) (tree s)) :
    items.length ≤ (items.flatMap lexemes).length := by
  induction items with
  | nil => exact Nat.le_refl _
  | cons first others ih =>
    obtain ⟨hfirst, hothers⟩ := List.forall_mem_cons.1 hitems
    have hpos := hfirst.opens.length_pos
    have hlength := ih hothers
    rw [List.flatMap_cons, List.length_append, List.length_cons]
    omega

/-- Item after item is taken off the front of a stream, each in a round of its own, and the
remaining rounds are spent on the rest. -/
theorem elementsUpToHole_reads {items : List σ} {lexemes : σ → List Lexeme} {tree : σ → Tree}
    (hitems : ∀ s ∈ items, Item marks (lexemes s) (tree s)) {tokens : List Token} {rest : Scan}
    {file : Option String} {cursor : Cursor} (rounds : Nat)
    (htokens : tokens.map (·.lexeme) = items.flatMap lexemes) (hclear : Clear marks rest.first)
    (hfetch : fetch (rest.prepend tokens) 0 file = .ok cursor) :
    result (elementsUpToHole element (rounds + items.length) cursor) =
      (fetch rest 0 file).bind fun after =>
        (result (elementsUpToHole element rounds after)).map
          fun (trees, last) => (items.map tree ++ trees, last) := by
  induction items generalizing tokens cursor with
  | nil =>
    obtain rfl := List.map_eq_nil_iff.1 htokens
    rw [show fetch rest 0 file = .ok cursor from hfetch]
    show _ = (result (elementsUpToHole element rounds cursor)).map fun (trees, last) => (trees, last)
    cases elementsUpToHole element rounds cursor <;> rfl
  | cons first others ih =>
    obtain ⟨hfirst, hothers⟩ := List.forall_mem_cons.1 hitems
    rw [List.flatMap_cons] at htokens
    obtain ⟨tokens, tokens', rfl, htokens, htokens'⟩ := List.map_eq_append_iff.1 htokens
    rw [Scan.prepend_append] at hfetch
    have hnext : Clear marks (rest.prepend tokens').first := by
      rw [Scan.first_prepend, htokens']
      cases others with
      | nil => exact hclear
      | cons second others =>
        rw [List.flatMap_cons]
        exact ((hothers second (List.mem_cons_self ..)).opens.append _).clear marks rest.first
    have hresult := hfirst.reads tokens (rest.prepend tokens') file cursor htokens hnext hfetch
    rw [List.length_cons, ← Nat.add_assoc, result_elementsUpToHole, hresult]
    cases hmiddle : fetch (rest.prepend tokens') 0 file with
    | error stop =>
      rw [(fetch_error hmiddle).2]
      rfl
    | ok middle =>
      have hrest := ih hothers htokens' hmiddle
      simp only [Except.map, Except.bind, hfirst.present, hrest]
      cases fetch rest 0 file with
      | error stop => rfl
      | ok after =>
        dsimp only
        cases result (elementsUpToHole element rounds after) <;> rfl

/-- **The tokens of items** read as their trees, and the tokens behind them as if there had been
none before. -/
theorem readTokens_items {items : List σ} {lexemes : σ → List Lexeme} {tree : σ → Tree}
    (hitems : ∀ s ∈ items, Item marks (lexemes s) (tree s)) {tokens : List Token} {rest : Scan}
    {file : Option String} (htokens : tokens.map (·.lexeme) = items.flatMap lexemes)
    (hclear : Clear marks rest.first) :
    readTokens (rest.prepend tokens) file = (readTokens rest file).map (items.map tree ++ ·) := by
  rw [readTokens_eq, readTokens_eq]
  cases hfetch : fetch (rest.prepend tokens) 0 file with
  | error stop =>
    rw [(fetch_error hfetch).2]
    rfl
  | ok cursor =>
    have hpending : cursor.pending.length = tokens.length + rest.tokens.length := by
      rw [(fetch_ok hfetch).2.1]
      exact List.length_append
    have hlength : items.length ≤ tokens.length := by
      have h := length_le_flatMap hitems
      rwa [← htokens, List.length_map] at h
    -- a round is spent on each item, and enough of them are left for the rest
    obtain ⟨rounds, hrounds⟩ : ∃ n, cursor.pending.length + 1 = n + items.length :=
      ⟨cursor.pending.length + 1 - items.length, by omega⟩
    have hall := elementsUpToHole_reads hitems rounds htokens hclear hfetch
    show (result (script cursor)).map Prod.fst = _
    rw [script, hrounds, hall]
    cases hrest : fetch rest 0 file with
    | error stop => rfl
    | ok after =>
      have hafter : after.pending.length = rest.tokens.length := by
        rw [(fetch_ok hrest).2.1]
      have hscript : elementsUpToHole element rounds after = script after :=
        elementsUpToHole_rounds rounds after (by omega)
      simp only [Except.bind, hscript]
      cases result (script after) <;> rfl

/-! ### Scripts that are refused -/

/-- A reading stops for a cause of its own in front of these tokens, whatever comes behind them. -/
def Refuses (depth : Nat) (x : Reading α) (tokens : List Token) (cause : StructuralCause) : Prop :=
  ∀ (rest : Scan) (file : Option String) (cursor : Cursor),
    fetch (rest.prepend tokens) depth file = .ok cursor →
    result (x cursor) = .error (.failed (.structural cause file))

namespace Refuses

variable {x : Reading α} {token next : Token} {tokens front : List Token}
  {cause : StructuralCause}

theorem first {f : α → Reading β} (hx : Refuses depth x tokens cause) :
    Refuses depth (x >>= f) tokens cause := by
  intro rest file cursor hfetch
  rw [result_bind, hx rest file cursor hfetch]
  rfl

/-- A reading behind another that has been read. -/
theorem behind {f : α → Reading β} {lexemes : List Lexeme} {value : α}
    (hx : Reads depth marks x lexemes value) (hfront : front.map (·.lexeme) = lexemes)
    (hclear : Clear marks (some token.lexeme))
    (hf : Refuses depth (f value) (token :: tokens) cause) :
    Refuses depth (x >>= f) (front ++ token :: tokens) cause := by
  intro rest file cursor hfetch
  rw [Scan.prepend_append] at hfetch
  have hnext : Clear marks (rest.prepend (token :: tokens)).first := hclear
  rw [result_bind, hx front (rest.prepend (token :: tokens)) file cursor hfront hnext hfetch,
    fetch_cons]
  exact hf rest file _ (fetch_cons token tokens)

theorem current {f : Option Token → Reading β}
    (hf : Refuses depth (f (some token)) (token :: tokens) cause) :
    Refuses depth (Reading.current >>= f) (token :: tokens) cause := by
  intro rest file cursor hfetch
  have hahead := (fetch_ok hfetch).1
  rw [current_bind, hahead]
  exact hf rest file cursor hfetch

theorem advance {f : Option Token → Reading β}
    (hf : Refuses depth (f (some token)) (next :: tokens) cause) :
    Refuses depth (Reading.advance >>= f) (token :: next :: tokens) cause := by
  intro rest file cursor hfetch
  rw [fetch_cons] at hfetch
  obtain rfl := Except.ok.inj hfetch
  rw [result_bind, result_advance, fetch_cons]
  exact hf rest file _ (fetch_cons next tokens)

theorem deeper (hx : Refuses (depth + 1) x tokens cause) :
    Refuses depth (Reading.deeper x) tokens cause := by
  intro rest file cursor hfetch
  have hinner := hx rest file { cursor with depth := cursor.depth + 1 }
    (by rw [fetch_succ, hfetch]; rfl)
  rw [result_deeper, hinner]
  rfl

/-- One level too many is refused at the token ahead. -/
theorem tooDeep :
    Refuses depth (Grammar.tooDeep : Reading α) (token :: tokens) (.nesting maxNesting token) := by
  intro rest file cursor hfetch
  rw [fetch_cons] at hfetch
  obtain rfl := Except.ok.inj hfetch
  rfl

theorem room {f : Nat → Reading α} (hf : Refuses depth (f (maxNesting - depth)) tokens cause) :
    Refuses depth (withRoom f) tokens cause := by
  intro rest file cursor hfetch
  rw [withRoom, (fetch_ok hfetch).2.2]
  exact hf rest file cursor hfetch

end Refuses

/-- **A script whose first element is refused** is refused for the same cause. -/
theorem readTokens_refuses {token : Token} {tokens : List Token} {cause : StructuralCause}
    (h : Refuses 0 element (token :: tokens) cause) (rest : Scan) (file : Option String) :
    readTokens (rest.prepend (token :: tokens)) file = .error (.failed (.structural cause file)) := by
  have hfetch : fetch (rest.prepend (token :: tokens)) 0 file =
      .ok ⟨some token, rest.prepend tokens, 0, file⟩ := fetch_cons token tokens
  have helement := h rest file _ hfetch
  rw [readTokens_eq, hfetch]
  show (result (script _)).map Prod.fst = _
  rw [script, result_elementsUpToHole, helement]
  rfl

end PageScript.Grammar
