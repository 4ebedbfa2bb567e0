/-!
# Tables

A table holds one value for each of some keys. Its entries are listed in the order in which their
keys were first entered, so that tables with the same history are equal.

- `Table`: the type, with `get?`, `insert` and `erase`.
- `Table.get?_insert`, `Table.get?_erase`: what each operation does to what is found.
-/

namespace Thesaurus

/-- Some keys, each with a value. -/
structure Table (κ α : Type) where
  entries : List (κ × α) := []
deriving DecidableEq, Inhabited, Repr

namespace Table

variable {κ α : Type} [DecidableEq κ] {t : Table κ α} {key other : κ} {value : α}
  {entries : List (κ × α)}

instance : EmptyCollection (Table κ α) := ⟨⟨[]⟩⟩

/-- The value of a key, if there is one. -/
def get? (t : Table κ α) (key : κ) : Option α :=
  t.entries.lookup key

/-- Replaces the value of a key, or adds the key at the end. -/
def putInto (key : κ) (value : α) : List (κ × α) → List (κ × α)
  | [] => [(key, value)]
  | entry :: rest =>
    if entry.1 = key then (key, value) :: rest else entry :: putInto key value rest

/-- The table in which `value` is the value of a key. -/
def insert (t : Table κ α) (key : κ) (value : α) : Table κ α :=
  ⟨putInto key value t.entries⟩

/-- The table without a key. -/
def erase (t : Table κ α) (key : κ) : Table κ α :=
  ⟨t.entries.filter (·.1 ≠ key)⟩

@[simp] theorem get?_empty : (∅ : Table κ α).get? key = none :=
  rfl

theorem lookup_putInto : (putInto key value entries).lookup other =
    if other = key then some value else entries.lookup other := by
  induction entries with
  | nil =>
    by_cases hsame : other = key
    · simp [putInto, hsame]
    · simp [putInto, hsame, List.lookup_cons, beq_eq_false_iff_ne.2 hsame]
  | cons entry rest ih =>
    unfold putInto
    by_cases hfirst : entry.1 = key
    · rw [if_pos hfirst, List.lookup_cons, List.lookup_cons, hfirst]
      by_cases hsame : other = key
      · simp [hsame]
      · simp [hsame, beq_eq_false_iff_ne.2 hsame]
    · rw [if_neg hfirst, List.lookup_cons, List.lookup_cons, ih]
      by_cases hhere : other = entry.1
      · simp [hhere, hfirst]
      · simp [beq_eq_false_iff_ne.2 hhere]

theorem get?_insert : (t.insert key value).get? other =
    if other = key then some value else t.get? other :=
  lookup_putInto

theorem get?_erase : (t.erase key).get? other = if other = key then none else t.get? other := by
  obtain ⟨entries⟩ := t
  show (entries.filter (·.1 ≠ key)).lookup other =
    if other = key then none else entries.lookup other
  induction entries with
  | nil => simp
  | cons entry rest ih =>
    -- an entry of the key itself is skipped on the left and is not the one asked for on the right
    by_cases hfirst : entry.1 = key
    · rw [List.filter_cons_of_neg (by simpa using hfirst), ih, List.lookup_cons, hfirst]
      by_cases hsame : other = key
      · simp [hsame]
      · simp [hsame, beq_eq_false_iff_ne.2 hsame]
    · rw [List.filter_cons_of_pos (by simpa using hfirst), List.lookup_cons, List.lookup_cons, ih]
      by_cases hhere : other = entry.1
      · simp [hhere, hfirst]
      · simp [beq_eq_false_iff_ne.2 hhere]

end Table

end Thesaurus
