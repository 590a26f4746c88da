import PageScript.Shell.Prompt

/-!
# Groups of lines

At the prompt, lines are gathered until they are no longer open: until their text does not end
inside of a function. So every sequence of lines falls into groups and a tail that waits for more.

* `Prompt.isOpen` — whether the text of some lines ends inside of a function;
* `IsGroup` — the shortest run of lines that is not open;
* `Grouping` — lines as groups, one behind the other, and a tail of which every beginning is open;
* `exists_grouping`, `Grouping.unique` — every sequence of lines has exactly one grouping.
-/

namespace PageScript.Prompt

/-- Whether the text of some lines ends inside of a function, so that more lines could complete it.
-/
def isOpen (lines : List String) : Bool :=
  match Grammar.readScript ("\n".intercalate lines) file with
  | .error (.failed failure) => isIncomplete failure
  | _ => false

/-- A run of lines that is not open, though each of its beginnings is. -/
structure IsGroup (group : List String) : Prop where
  nonempty : group ≠ []
  closed : isOpen group = false
  shortest : ∀ upper, upper <+: group → upper ≠ [] → upper ≠ group → isOpen upper = true

/-- Lines as groups, one behind the other, and a tail that never comes to the end of a group. -/
structure Grouping (lines : List String) (groups : List (List String)) (tail : List String) :
    Prop where
  join : groups.flatten ++ tail = lines
  groups : ∀ group ∈ groups, IsGroup group
  tail : ∀ upper, upper <+: tail → upper ≠ [] → isOpen upper = true

/-- Of two groups that start alike, neither ends inside of the other. -/
theorem IsGroup.eq_of_prefix {group other : List String} (h : IsGroup group) (h' : IsGroup other)
    (hbegins : group <+: other) : group = other := by
  by_cases heq : group = other
  · exact heq
  · have hopen := h'.shortest group hbegins h.nonempty heq
    rw [h.closed] at hopen
    cases hopen

/-- A group does not begin a tail. -/
theorem IsGroup.not_begins {group tail : List String} (h : IsGroup group)
    (htail : ∀ upper, upper <+: tail → upper ≠ [] → isOpen upper = true) : ¬ group <+: tail := by
  intro hbegins
  have hopen := htail group hbegins h.nonempty
  rw [h.closed] at hopen
  cases hopen

theorem Grouping.cons {group lines tail : List String} {groups : List (List String)}
    (hgroup : IsGroup group) (h : Grouping lines groups tail) :
    Grouping (group ++ lines) (group :: groups) tail where
  join := by rw [List.flatten_cons, List.append_assoc, h.join]
  groups := List.forall_mem_cons.2 ⟨hgroup, h.groups⟩
  tail := h.tail

/-- **Lines have at most one grouping.** -/
theorem Grouping.unique {lines tail tail' : List String} {groups groups' : List (List String)}
    (h : Grouping lines groups tail) (h' : Grouping lines groups' tail') :
    groups' = groups ∧ tail' = tail := by
  induction groups generalizing lines groups' with
  | nil =>
    have hlines : tail = lines := h.join
    cases groups' with
    | nil => exact ⟨rfl, h'.join.trans hlines.symm⟩
    | cons group others =>
      -- a group cannot begin where there is but a tail
      have hbegins : group <+: tail := by
        rw [hlines, ← h'.join, List.flatten_cons, List.append_assoc]
        exact List.prefix_append ..
      exact absurd hbegins ((h'.groups group (List.mem_cons_self ..)).not_begins h.tail)
  | cons group groups ih =>
    have hgroup := h.groups group (List.mem_cons_self ..)
    have hbegins : group <+: lines := by
      rw [← h.join, List.flatten_cons, List.append_assoc]
      exact List.prefix_append ..
    cases groups' with
    | nil =>
      have hlines : tail' = lines := h'.join
      exact absurd (hlines ▸ hbegins) (hgroup.not_begins h'.tail)
    | cons group' groups' =>
      have hgroup' := h'.groups group' (List.mem_cons_self ..)
      have hbegins' : group' <+: lines := by
        rw [← h'.join, List.flatten_cons, List.append_assoc]
        exact List.prefix_append ..
      have heq : group' = group := by
        rcases List.prefix_or_prefix_of_prefix hbegins' hbegins with hle | hle
        · exact hgroup'.eq_of_prefix hgroup hle
        · exact (hgroup.eq_of_prefix hgroup' hle).symm
      subst heq
      have hrest : Grouping (groups.flatten ++ tail) groups tail :=
        ⟨rfl, fun other hother => h.groups other (List.mem_cons_of_mem _ hother), h.tail⟩
      have hrest' : Grouping (groups.flatten ++ tail) groups' tail' := by
        refine ⟨?_, fun other hother => h'.groups other (List.mem_cons_of_mem _ hother), h'.tail⟩
        have hjoin := h'.join.trans h.join.symm
        rw [List.flatten_cons, List.flatten_cons, List.append_assoc, List.append_assoc] at hjoin
        exact List.append_cancel_left hjoin
      obtain ⟨rfl, rfl⟩ := ih hrest hrest'
      exact ⟨rfl, rfl⟩

/-- Lines behind some that wait for more have a grouping together with these. -/
theorem exists_grouping_behind (waiting lines : List String)
    (hopen : ∀ upper, upper <+: waiting → upper ≠ [] → isOpen upper = true) :
    ∃ groups tail, Grouping (waiting ++ lines) groups tail := by
  induction lines generalizing waiting with
  | nil => exact ⟨[], waiting, by simp, fun _ h => absurd h List.not_mem_nil, hopen⟩
  | cons line lines ih =>
    have hjoin : waiting ++ line :: lines = (waiting ++ [line]) ++ lines := by simp
    rw [hjoin]
    -- a beginning that is not the whole comes from what has waited already
    have hupper : ∀ upper, upper <+: waiting ++ [line] → upper ≠ [] → upper ≠ waiting ++ [line] →
        isOpen upper = true := by
      intro upper hbegins hne hwhole
      rcases List.prefix_concat_iff.1 hbegins with heq | hbegins
      · exact absurd heq hwhole
      · exact hopen upper hbegins hne
    by_cases hclosed : isOpen (waiting ++ [line]) = true
    · refine ih (waiting ++ [line]) fun upper hbegins hne => ?_
      by_cases hwhole : upper = waiting ++ [line]
      · rw [hwhole, hclosed]
      · exact hupper upper hbegins hne hwhole
    · obtain ⟨groups, tail, h⟩ := ih [] fun upper hbegins hne =>
        absurd (List.prefix_nil.1 hbegins) hne
      have hgroup : IsGroup (waiting ++ [line]) :=
        ⟨by simp, Bool.eq_false_iff.2 hclosed, hupper⟩
      exact ⟨_, tail, h.cons hgroup⟩

/-- **Lines have a grouping.** -/
theorem exists_grouping (lines : List String) : ∃ groups tail, Grouping lines groups tail :=
  exists_grouping_behind [] lines fun _ hbegins hne => absurd (List.prefix_nil.1 hbegins) hne

end PageScript.Prompt
