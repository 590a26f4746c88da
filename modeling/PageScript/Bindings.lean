/-!
# Names and what they are bound to

* `Bindings` — names bound to things, in the order of their code points;
* `Bindings.insert`, `Bindings.get?` — binding a name and looking it up;
* `get?_insert_self`, `get?_insert_of_ne` — a look-up sees the last binding of its own name and no
  other;
* `contains_insert` — binding a name unbinds no other.

A name that is bound again keeps one entry, so the entries never depend on the order in which
distinct names were bound.
-/

namespace PageScript

/-- Names bound to things, in ascending order. -/
structure Bindings (α : Type) where
  entries : List (String × α)
deriving DecidableEq

namespace Bindings

variable {α : Type}

/-- No name is bound. -/
def empty : Bindings α := ⟨[]⟩

/-- A sorted list of entries with one more entry, which replaces an entry of its name. -/
def insertEntry (name : String) (thing : α) : List (String × α) → List (String × α)
  | [] => [(name, thing)]
  | entry :: rest =>
    if name = entry.1 then (name, thing) :: rest
    else if name < entry.1 then (name, thing) :: entry :: rest
    else entry :: insertEntry name thing rest

/-- Binds a name, in place of what it was bound to. -/
def insert (bindings : Bindings α) (name : String) (thing : α) : Bindings α :=
  ⟨insertEntry name thing bindings.entries⟩

/-- What a name is bound to. -/
def get? (bindings : Bindings α) (name : String) : Option α :=
  bindings.entries.lookup name

/-- Whether a name is bound. -/
def contains (bindings : Bindings α) (name : String) : Bool :=
  (bindings.get? name).isSome

/-- The bound names in ascending order. -/
def names (bindings : Bindings α) : List String :=
  bindings.entries.map (·.1)

/-- Binds the names of a list one after the other. -/
def ofList (entries : List (String × α)) : Bindings α :=
  entries.foldl (fun bindings entry => bindings.insert entry.1 entry.2) empty

/-! ### Looking up what was bound -/

theorem get?_empty (name : String) : (empty : Bindings α).get? name = none := rfl

theorem lookup_insertEntry_self (name : String) (thing : α) (entries : List (String × α)) :
    (insertEntry name thing entries).lookup name = some thing := by
  induction entries with
  | nil => simp [insertEntry]
  | cons entry rest ih =>
    obtain ⟨bound, old⟩ := entry
    unfold insertEntry
    split
    · simp
    · split
      · simp
      · next hne _ =>
        have hbeq : (name == bound) = false := by simpa using hne
        simp only [List.lookup_cons, hbeq]
        exact ih

theorem lookup_insertEntry_of_ne {name other : String} (hne : other ≠ name) (thing : α)
    (entries : List (String × α)) :
    (insertEntry name thing entries).lookup other = entries.lookup other := by
  have hbeq : (other == name) = false := by simpa using hne
  induction entries with
  | nil => simp only [insertEntry, List.lookup_cons, hbeq]
  | cons entry rest ih =>
    obtain ⟨bound, old⟩ := entry
    unfold insertEntry
    split
    · next heq =>
      have hbound : (other == bound) = false := by rwa [show bound = name from heq.symm]
      simp only [List.lookup_cons, hbeq, hbound]
    · split
      · simp only [List.lookup_cons, hbeq]
      · simp only [List.lookup_cons, ih]

theorem get?_insert_self (bindings : Bindings α) (name : String) (thing : α) :
    (bindings.insert name thing).get? name = some thing :=
  lookup_insertEntry_self name thing bindings.entries

theorem get?_insert_of_ne (bindings : Bindings α) {name other : String} (hne : other ≠ name)
    (thing : α) : (bindings.insert name thing).get? other = bindings.get? other :=
  lookup_insertEntry_of_ne hne thing bindings.entries

theorem contains_insert (bindings : Bindings α) (name other : String) (thing : α) :
    (bindings.insert name thing).contains other =
      (decide (other = name) || bindings.contains other) := by
  by_cases h : other = name
  · subst h
    simp [contains, get?_insert_self]
  · simp [contains, get?_insert_of_ne _ h, h]

end Bindings

end PageScript
