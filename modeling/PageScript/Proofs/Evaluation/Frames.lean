import PageScript.Scope

/-!
# Properties of everything that is bound

* `Bindings.All` — everything that a name is bound to has a property, and binding one more keeps it
  so;
* `Scope.Every` — every frame has a property, the waiting ones included;
* `Scope.Every.assign`, `Scope.Every.enter`, `Scope.Every.leave` — what changes frames keeps a
  property of all of them, if it holds of the frames that come in and survives a change of one.
-/

namespace PageScript

namespace Bindings

variable {α : Type} {p : α → Prop}

/-- Everything that a name is bound to has a property. -/
def All (p : α → Prop) (bindings : Bindings α) : Prop :=
  ∀ name thing, bindings.get? name = some thing → p thing

theorem All.empty : (Bindings.empty : Bindings α).All p := fun _ _ h => nomatch h

theorem All.insert {bindings : Bindings α} (h : bindings.All p) (name : String) {thing : α}
    (hthing : p thing) : (bindings.insert name thing).All p := by
  intro other found hfound
  by_cases hname : other = name
  · subst hname
    rw [get?_insert_self] at hfound
    obtain rfl := Option.some.inj hfound
    exact hthing
  · rw [get?_insert_of_ne bindings hname] at hfound
    exact h other found hfound

theorem All.ofList {entries : List (String × α)} (h : ∀ entry ∈ entries, p entry.2) :
    (Bindings.ofList entries).All p := by
  have hfold : ∀ bindings : Bindings α, bindings.All p →
      (entries.foldl (fun bindings entry => bindings.insert entry.1 entry.2) bindings).All p := by
    induction entries with
    | nil => exact fun bindings hbindings => hbindings
    | cons entry entries ih =>
      intro bindings hbindings
      exact ih (fun e he => h e (List.mem_cons_of_mem entry he)) _
        (hbindings.insert entry.1 (h entry (List.mem_cons_self ..)))
  exact hfold .empty .empty

end Bindings

namespace Scope

/-- Every frame has a property. -/
structure Every (p : Frame → Prop) (scope : Scope) : Prop where
  globals : p scope.globals
  calls : ∀ frame ∈ scope.calls, p frame

variable {p : Frame → Prop} {scope : Scope} (h : scope.Every p)
include h

theorem Every.active : p scope.active := by
  obtain ⟨globals, calls⟩ := scope
  cases calls with
  | nil => exact h.globals
  | cons frame callers => exact h.calls frame (List.mem_cons_self ..)

/-- What a name stands for is bound in one of the frames. -/
theorem Every.lookup {r : Value → Prop} (hp : ∀ {frame name value}, p frame →
    frame.get? name = some value → r value) {name : String} {value : Value}
    (hvalue : scope.lookup? name = some value) : r value := by
  rw [lookup?, Option.or_eq_some_iff] at hvalue
  rcases hvalue with hactive | ⟨-, hglobal⟩
  · exact hp h.active hactive
  · exact hp h.globals hglobal

theorem Every.modifyActive {change : Frame → Frame}
    (hchange : ∀ frame, p frame → p (change frame)) : (scope.modifyActive change).Every p := by
  obtain ⟨globals, calls⟩ := scope
  cases calls with
  | nil => exact ⟨hchange globals h.globals, h.calls⟩
  | cons frame callers =>
    refine ⟨h.globals, fun other hother => ?_⟩
    rcases List.mem_cons.1 hother with rfl | hother
    · exact hchange frame (h.calls frame (List.mem_cons_self ..))
    · exact h.calls other (List.mem_cons_of_mem frame hother)

theorem Every.assign {name : String} {value : Value}
    (hdeclare : ∀ frame, p frame → p (frame.declare name value)) :
    (scope.assign name value).Every p := by
  unfold Scope.assign
  split
  · exact ⟨hdeclare _ h.globals, h.calls⟩
  · exact h.modifyActive hdeclare

theorem Every.enter {frame : Frame} (hframe : p frame) : (scope.enter frame).Every p := by
  refine ⟨h.globals, fun other hother => ?_⟩
  rcases List.mem_cons.1 hother with rfl | hother
  · exact hframe
  · exact h.calls other hother

theorem Every.leave : scope.leave.Every p :=
  ⟨h.globals, fun frame hframe => h.calls frame (List.mem_of_mem_tail hframe)⟩

end Scope

end PageScript
