import PageScript.Proofs.Grammar.Reads
import PageScript.Proofs.Token.Lines

/-!
# The places that tokens name

The lines that tokens stand on have no say in what is read, and neither has the file. They only
return in the failures, so a text that stands elsewhere reads as before, and its failures name the
places where it stands.

* `Relocation` — what becomes of the places that tokens and failures name;
* `relocating` — reading tokens that stand elsewhere;
* `readTokens_relocated` — what they read as;
* `Stop.shift`, `readTokens_shift` — the same for tokens that stand some lines further down.
-/

namespace PageScript

/-- Why the reading of a text that stands further down stops. -/
def Stop.shift (lines : Int) : Stop → Stop
  | .failed failure => .failed (failure.shift lines)
  | .stalled => .stalled

/-- What becomes of the lines and of the files that tokens and failures name. -/
structure Relocation where
  line : Int → Int
  file : Option String → Option String

namespace Relocation

/-- Some lines further down in the same file. -/
def down (lines : Int) : Relocation := ⟨(· + lines), id⟩

/-- All in one place. -/
def together : Relocation := ⟨fun _ => 0, fun _ => none⟩

variable (places : Relocation)

/-- A token that stands elsewhere. -/
def token (token : Token) : Token :=
  { token with line := places.line token.line }

/-- A cause whose token stands elsewhere. -/
def cause : StructuralCause → StructuralCause
  | .expected mark found => .expected mark (found.map places.token)
  | .nesting limit found => .nesting limit (found.map places.token)

/-- A failure that names another place. -/
def failure : Failure → Failure
  | .lexical cause line file => .lexical cause (line.map places.line) (places.file file)
  | .structural cause file => .structural (places.cause cause) (places.file file)
  | .execution cause file => .execution cause (places.file file)
  | .unspecified stage => .unspecified stage

/-- Why the reading of a text that stands elsewhere stops. -/
def stop : Stop → Stop
  | .failed failure => .failed (places.failure failure)
  | .stalled => .stalled

/-- The tokens of a text that stands elsewhere. -/
def scan (scan : Scan) : Scan :=
  ⟨scan.tokens.map places.token, scan.failure.map places.failure⟩

/-- A cursor over tokens that stand elsewhere. -/
def cursor (cursor : Cursor) : Cursor :=
  { cursor with
    current := cursor.current.map places.token
    ahead := places.scan cursor.ahead
    file := places.file cursor.file }

theorem length_pending (cursor : Cursor) :
    (places.cursor cursor).pending.length = cursor.pending.length := by
  obtain ⟨current, ahead, depth, file⟩ := cursor
  cases current <;> simp [Cursor.pending, Relocation.cursor, Relocation.scan]

theorem down_cause (lines : Int) (cause : StructuralCause) :
    (down lines).cause cause = cause.shift lines := by
  cases cause <;> rfl

theorem down_failure (lines : Int) (failure : Failure) :
    (down lines).failure failure = failure.shift lines := by
  cases failure with
  | structural cause file => exact congrArg (Failure.structural · file) (down_cause lines cause)
  | _ => rfl

theorem down_stop (lines : Int) (stop : Stop) : (down lines).stop stop = stop.shift lines := by
  cases stop with
  | failed failure => exact congrArg Stop.failed (down_failure lines failure)
  | stalled => rfl

theorem down_scan (lines : Int) (scan : Scan) : (down lines).scan scan = scan.shift lines := by
  show Scan.mk _ (scan.failure.map _) = ⟨_, scan.failure.map _⟩
  rw [funext (down_failure lines)]
  rfl

end Relocation

namespace Grammar

open Reading

variable {α β : Type} (places : Relocation)

/-- What becomes of a result when the tokens stand elsewhere. -/
def relocated : EStateM.Result Stop Cursor α → EStateM.Result Stop Cursor α
  | .ok value cursor => .ok value (places.cursor cursor)
  | .error stop cursor => .error (places.stop stop) (places.cursor cursor)

/-- Two readings, the second of which does to tokens that stand elsewhere what the first does to them
where they are. -/
def Relocates (x y : Reading α) : Prop :=
  ∀ cursor : Cursor, y (places.cursor cursor) = relocated places (x cursor)

variable {places}

theorem Relocates.bind {x y : Reading α} {f g : α → Reading β} (hx : Relocates places x y)
    (hf : ∀ value, Relocates places (f value) (g value)) :
    Relocates places (x >>= f) (y >>= g) := by
  intro cursor
  show EStateM.bind y g _ = relocated places (EStateM.bind x f cursor)
  unfold EStateM.bind
  rw [hx cursor]
  cases x cursor with
  | ok value after => exact hf value after
  | error stop after => rfl

theorem Relocates.advance {f g : Option Token → Reading β}
    (hf : ∀ token : Option Token, Relocates places (f token) (g (token.map places.token))) :
    Relocates places (Reading.advance >>= f) (Reading.advance >>= g) := by
  rintro ⟨current, ⟨tokens, failure⟩, depth, file⟩
  rcases current with _ | token
  · exact hf none _
  · rcases tokens with _ | ⟨next, tokens⟩
    · rcases failure with _ | failure
      · exact hf (some token) ⟨none, .finished, depth, file⟩
      · rfl
    · exact hf (some token) ⟨some next, ⟨tokens, failure⟩, depth, file⟩

theorem Relocates.deeper {x y : Reading α} (h : Relocates places x y) :
    Relocates places (deeper x) (deeper y) := by
  intro cursor
  have hinner := h { cursor with depth := cursor.depth + 1 }
  unfold Reading.deeper
  rw [show y { places.cursor cursor with depth := (places.cursor cursor).depth + 1 } = _
    from hinner]
  cases x { cursor with depth := cursor.depth + 1 } <;> rfl

variable (places)

/-- **Every production can be moved elsewhere**, for it looks at what the tokens say and not where
they are. -/
def relocating : Correspondence where
  Alike a b := b = a.map places.token
  Rel x y := Relocates places x y
  lexeme {a b} h := by
    subst h
    cases a <;> rfl
  pure value := fun _ => rfl
  bind hx hf := hx.bind hf
  current hf := fun cursor => hf cursor.current _ rfl cursor
  advance hf := Relocates.advance fun token => hf token _ rfl
  expected mark _ _ h := fun _ => by rw [h]; rfl
  nesting limit _ _ h := fun _ => by rw [h]; rfl
  stall := fun _ => rfl
  deeper h := h.deeper
  rounds hf := fun cursor => by
    simp only [Relocation.length_pending]
    exact hf (cursor.pending.length + 1) cursor
  room hf := fun cursor => hf (maxNesting - cursor.depth) cursor

theorem fetch_relocated (stream : Scan) (depth : Nat) (file : Option String) :
    fetch (places.scan stream) depth (places.file file) =
      ((fetch stream depth file).map places.cursor).mapError places.stop := by
  obtain ⟨tokens, failure⟩ := stream
  cases tokens <;> cases failure <;> rfl

/-- **Tokens that stand elsewhere** read as the same elements, or fail elsewhere. -/
theorem readTokens_relocated (tokens : Scan) (file : Option String) :
    readTokens (places.scan tokens) (places.file file) =
      (readTokens tokens file).mapError places.stop := by
  rw [readTokens_eq, readTokens_eq, fetch_relocated]
  cases fetch tokens 0 file with
  | error stop => rfl
  | ok cursor =>
    have hscript : script (places.cursor cursor) = relocated places (script cursor) :=
      (relocating places).script cursor
    show (result (script (places.cursor cursor))).map Prod.fst =
      ((result (script cursor)).map Prod.fst).mapError places.stop
    rw [hscript]
    cases script cursor <;> rfl

/-- **Tokens further down** read as the same elements, or fail as many lines further down. -/
theorem readTokens_shift (lines : Int) (tokens : Scan) (file : Option String) :
    readTokens (tokens.shift lines) file = (readTokens tokens file).mapError (Stop.shift lines) := by
  rw [← Relocation.down_scan, ← funext (Relocation.down_stop lines)]
  exact readTokens_relocated (.down lines) tokens file

end Grammar

end PageScript
