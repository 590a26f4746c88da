import PageScript.Proofs.Text.Numerals
import PageScript.Settings

/-!
# The limits that an environment asks for

Two settings bound a run, and an environment may hold any text for either of them.

* `IsUnset`, `Gives` — a setting that says nothing, and one that says a number;
* `IsLegal` — a setting that can be obeyed, and `Asks`, the bound that it stands for;
* `Refuses` — why a setting cannot be obeyed;
* `readBound_legal`, `readBound_illegal` — the two ways in which a setting is read;
* `ofEnvironment_exact` — the limits are what both settings ask for, or else the first setting that
  cannot be obeyed is refused.
-/

namespace PageScript.Settings

/-! ### What a setting says -/

/-- A setting that is absent or consists of blanks. -/
def IsUnset (setting : Option String) : Prop :=
  ∀ text ∈ setting, ∀ c ∈ text.toList, Text.isBlank c = true

/-- A setting that is a numeral, but for a plus in front of it and for blanks around both. -/
def Gives (setting : Option String) (n : Nat) : Prop :=
  ∃ text ∈ setting, ∃ core digits, Text.Surrounds text.toList core ∧
    (core = digits ∨ core = '+' :: digits) ∧ Text.Numeral digits n

/-- A setting that can be obeyed. -/
def IsLegal (setting : Option String) : Prop :=
  IsUnset setting ∨ ∃ n, 0 < n ∧ Gives setting n

/-- A setting asks for a bound: for the default if it is unset, and for the number that it gives. -/
structure Asks (setting : Option String) (default bound : Option Int) : Prop where
  unset : IsUnset setting → bound = default
  given : ∀ n : Nat, 0 < n → Gives setting n → bound = some (n : Int)

/-- Why the setting of a key is refused: what is between its blanks is no integer, or it is none
that bounds a run. -/
inductive Refuses (key : String) : Option String → SettingError → Prop
  | notInteger {text : String} {core : List Char} : Text.Surrounds text.toList core → core ≠ [] →
      (∀ value, ¬ Text.SignedNumeral core value) →
      Refuses key (some text) (.notInteger key (String.ofList core))
  | notPositive {text : String} {core : List Char} {value : Int} :
      Text.Surrounds text.toList core → Text.SignedNumeral core value → value ≤ 0 →
      Refuses key (some text) (.notPositive key value)

/-! ### Reading one setting -/

section

variable {text : String} {core : List Char} (h : Text.Surrounds text.toList core)
include h

theorem strip_of_surrounds : Text.strip text = String.ofList core :=
  congrArg String.ofList (Text.stripChars_eq_iff.2 h)

theorem isUnset_of_surrounds (hcore : core = []) : IsUnset (some text) := by
  obtain ⟨⟨left, right, htext, hleft, hright⟩, -, -⟩ := h
  intro text' htext' c hc
  obtain rfl := Option.some.inj htext'
  rw [htext, hcore, List.append_nil, List.mem_append] at hc
  exact hc.elim (hleft c) (hright c)

theorem readBound_blank (key : String) (hcore : core = []) : readBound key text = .ok none := by
  unfold readBound
  rw [strip_of_surrounds h, hcore]
  rfl

theorem readBound_core (key : String) (hcore : core ≠ []) : readBound key text =
    ((Text.readInteger? core).elim (.error (.notInteger key (String.ofList core)))
      fun value => if value ≤ 0 then .error (.notPositive key value) else .ok (some value)) := by
  have hempty : (String.ofList core).isEmpty = false :=
    Bool.eq_false_iff.2 fun h => hcore (String.ofList_eq_empty_iff.1 (String.isEmpty_iff.1 h))
  unfold readBound
  dsimp only
  rw [strip_of_surrounds h, hempty, String.toList_ofList]
  cases Text.readInteger? core <;> rfl

end

variable {setting : Option String} (key : String)

/-- A setting that says nothing is read as no bound. -/
theorem readBound_unset (h : IsUnset setting) : readBound key (setting.getD "") = .ok none := by
  have hblank : ∀ c ∈ (setting.getD "").toList, Text.isBlank c = true := by
    cases setting with
    | none => exact fun c hc => absurd hc List.not_mem_nil
    | some text => exact h text rfl
  refine readBound_blank ⟨⟨_, [], ?_, hblank, fun c hc => absurd hc List.not_mem_nil⟩, ?_, ?_⟩
    key rfl
  · rw [List.append_nil, List.append_nil]
  · exact fun c hc => nomatch hc
  · exact fun c hc => nomatch hc

/-- A setting that gives a positive number is read as that number. -/
theorem readBound_given {n : Nat} (hn : 0 < n) (h : Gives setting n) :
    readBound key (setting.getD "") = .ok (some n) := by
  obtain ⟨text, rfl, core, digits, hcore, hplus, hnumeral⟩ := h
  have hsigned : Text.SignedNumeral core n := by
    rcases hplus with rfl | rfl
    · exact .bare hnumeral
    · exact .plus hnumeral
  have hne : core ≠ [] := by
    obtain ⟨c, rest, digit, rfl, -⟩ := hnumeral.first
    rcases hplus with rfl | rfl <;> exact List.cons_ne_nil _ _
  have hpositive : ¬ (n : Int) ≤ 0 := by omega
  show readBound key text = _
  rw [readBound_core hcore key hne, Text.readInteger?_eq_some.2 hsigned, Option.elim_some,
    if_neg hpositive]

/-- **A setting that can be obeyed** is read as the bound that it asks for. -/
theorem readBound_legal (h : IsLegal setting) :
    ∃ bound, readBound key (setting.getD "") = .ok bound ∧ Asks setting none bound := by
  have hasks : ∀ {bound}, readBound key (setting.getD "") = .ok bound → Asks setting none bound :=
    fun hread =>
      ⟨fun hunset => Except.ok.inj (hread.symm.trans (readBound_unset key hunset)),
        fun n hn hgives => Except.ok.inj (hread.symm.trans (readBound_given key hn hgives))⟩
  rcases h with hunset | ⟨n, hn, hgives⟩
  · have hread := readBound_unset key hunset
    exact ⟨none, hread, hasks hread⟩
  · have hread := readBound_given key hn hgives
    exact ⟨some n, hread, hasks hread⟩

/-- A setting that is a positive integer can be obeyed. -/
theorem isLegal_of_signedNumeral {text : String} {core : List Char} {value : Int}
    (h : Text.Surrounds text.toList core) (hsigned : Text.SignedNumeral core value)
    (hvalue : 0 < value) : IsLegal (some text) := by
  cases hsigned with
  | @bare _ n hnumeral => exact .inr ⟨n, by omega, text, rfl, _, _, h, .inl rfl, hnumeral⟩
  | @plus _ n hnumeral => exact .inr ⟨n, by omega, text, rfl, _, _, h, .inr rfl, hnumeral⟩
  | minus hnumeral => omega

/-- **A setting that cannot be obeyed** is refused, for a reason. -/
theorem readBound_illegal (h : ¬ IsLegal setting) :
    ∃ error, readBound key (setting.getD "") = .error error ∧ Refuses key setting error := by
  cases setting with
  | none => exact absurd (.inl fun _ htext => nomatch htext) h
  | some text =>
    obtain ⟨core, hcore⟩ : ∃ core, Text.Surrounds text.toList core :=
      ⟨_, Text.stripChars_eq_iff.1 rfl⟩
    have hne : core ≠ [] := fun hnil => h (.inl (isUnset_of_surrounds hcore hnil))
    show ∃ error, readBound key text = .error error ∧ _
    rw [readBound_core hcore key hne]
    cases hread : Text.readInteger? core with
    | none =>
      refine ⟨_, rfl, .notInteger hcore hne fun value hsigned => ?_⟩
      rw [Text.readInteger?_eq_some.2 hsigned] at hread
      cases hread
    | some value =>
      have hsigned := Text.readInteger?_eq_some.1 hread
      have hvalue : value ≤ 0 := by
        by_contra hpositive
        exact h (isLegal_of_signedNumeral hcore hsigned (by omega))
      rw [Option.elim_some, if_pos hvalue]
      exact ⟨_, rfl, .notPositive hcore hsigned hvalue⟩

/-- Every bound that is read is positive. -/
theorem readBound_pos {key text : String} {bound : Option Int}
    (h : readBound key text = .ok bound) : ∀ n ∈ bound, 0 < n := by
  unfold readBound at h
  dsimp only at h
  split at h
  · obtain rfl := Except.ok.inj h
    exact fun n hn => nomatch hn
  · split at h
    · cases h
    · split at h
      · cases h
      · next hpositive =>
        obtain rfl := Except.ok.inj h
        intro n hn
        obtain rfl := Option.some.inj hn
        omega

/-- A setting without a default and the same setting with one. -/
theorem Asks.getD {bound : Option Int} (h : Asks setting none bound) (default : Int) :
    Asks setting (some default) (some (bound.getD default)) where
  unset hunset := by
    rw [h.unset hunset]
    rfl
  given n hn hgives := by
    rw [h.given n hn hgives]
    rfl

/-! ### Reading both settings -/

section

variable {environment : String → Option String}

theorem ofEnvironment_eq : ofEnvironment environment =
    (readBound callDepthKey ((environment callDepthKey).getD "") >>= fun depth =>
      readBound stepsKey ((environment stepsKey).getD "") >>= fun steps =>
        pure ⟨⟨steps, depth.getD defaultCallDepth⟩, readFlag ((environment debugKey).getD "")⟩) :=
  rfl

variable {depth steps : Option Int} {error : SettingError}

theorem ofEnvironment_ok
    (hdepth : readBound callDepthKey ((environment callDepthKey).getD "") = .ok depth)
    (hsteps : readBound stepsKey ((environment stepsKey).getD "") = .ok steps) :
    ofEnvironment environment =
      .ok ⟨⟨steps, depth.getD defaultCallDepth⟩, readFlag ((environment debugKey).getD "")⟩ := by
  rw [ofEnvironment_eq, hdepth, hsteps]
  rfl

/-- A bound on calls that is refused is all that is looked at. -/
theorem ofEnvironment_callDepth
    (h : readBound callDepthKey ((environment callDepthKey).getD "") = .error error) :
    ofEnvironment environment = .error error := by
  rw [ofEnvironment_eq, h]
  rfl

theorem ofEnvironment_steps
    (hdepth : readBound callDepthKey ((environment callDepthKey).getD "") = .ok depth)
    (h : readBound stepsKey ((environment stepsKey).getD "") = .error error) :
    ofEnvironment environment = .error error := by
  rw [ofEnvironment_eq, hdepth, h]
  rfl

/-- All limits that an environment can ask for are positive. -/
theorem ofEnvironment_pos {settings : Settings} (h : ofEnvironment environment = .ok settings) :
    0 < settings.limits.maxCallDepth ∧ ∀ bound ∈ settings.limits.maxSteps, 0 < bound := by
  cases hdepth : readBound callDepthKey ((environment callDepthKey).getD "") with
  | error error => cases (ofEnvironment_callDepth hdepth).symm.trans h
  | ok depth =>
    cases hsteps : readBound stepsKey ((environment stepsKey).getD "") with
    | error error => cases (ofEnvironment_steps hdepth hsteps).symm.trans h
    | ok steps =>
      obtain rfl := Except.ok.inj ((ofEnvironment_ok hdepth hsteps).symm.trans h)
      refine ⟨?_, readBound_pos hsteps⟩
      cases depth with
      | none => exact (by decide : 0 < defaultCallDepth)
      | some n => exact readBound_pos hdepth n rfl

end

/-- **The limits of a run are what the environment asks for.** A setting that is absent or blank
asks for the default. One that is a numeral, but for a plus in front of it and for the blanks around
both, asks for the number that it denotes, if that is not zero. If both settings are so, they are
obeyed; if not, the first of them that is not is refused, the bound on calls being looked at first,
and a refusal says what is wrong with the setting. All bounds are positive. -/
theorem ofEnvironment_exact (environment : String → Option String) :
    (∀ settings, ofEnvironment environment = .ok settings →
      0 < settings.limits.maxCallDepth ∧ ∀ bound ∈ settings.limits.maxSteps, 0 < bound) ∧
    (IsLegal (environment callDepthKey) → IsLegal (environment stepsKey) →
      ∃ settings, ofEnvironment environment = .ok settings ∧
        Asks (environment callDepthKey) (some defaultCallDepth)
          (some settings.limits.maxCallDepth) ∧
        Asks (environment stepsKey) none settings.limits.maxSteps) ∧
    (¬ IsLegal (environment callDepthKey) → ∃ error, ofEnvironment environment = .error error ∧
      error.kind = "ValueError" ∧ Refuses callDepthKey (environment callDepthKey) error) ∧
    (IsLegal (environment callDepthKey) → ¬ IsLegal (environment stepsKey) →
      ∃ error, ofEnvironment environment = .error error ∧
        error.kind = "ValueError" ∧ Refuses stepsKey (environment stepsKey) error) := by
  refine ⟨fun settings => ofEnvironment_pos, fun hcalls hsteps => ?_, fun hcalls => ?_,
    fun hcalls hsteps => ?_⟩
  · obtain ⟨depth, hdepth, hasks⟩ := readBound_legal callDepthKey hcalls
    obtain ⟨steps, hbound, hasks'⟩ := readBound_legal stepsKey hsteps
    exact ⟨_, ofEnvironment_ok hdepth hbound, hasks.getD _, hasks'⟩
  · obtain ⟨error, hdepth, hrefuses⟩ := readBound_illegal callDepthKey hcalls
    exact ⟨error, ofEnvironment_callDepth hdepth, rfl, hrefuses⟩
  · obtain ⟨depth, hdepth, -⟩ := readBound_legal callDepthKey hcalls
    obtain ⟨error, hbound, hrefuses⟩ := readBound_illegal stepsKey hsteps
    exact ⟨error, ofEnvironment_steps hdepth hbound, rfl, hrefuses⟩

/-- Blanks, a plus, a leading zero, an underscore, and digits of two scripts. -/
example : (readBound stepsKey " +0_4٢\t").toOption = some (some 42) := by
  decide +kernel

end PageScript.Settings
