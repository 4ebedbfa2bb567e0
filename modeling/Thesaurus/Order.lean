/-!
# Comparisons

- `absentLast`: compares optional values, with absent ones after all others.
- `sortOn`: the stable sort of a list by a key.
- `dropRepeats`: a list without the elements whose key repeats that of the element before.
-/

namespace Thesaurus

/-- Compares optional values: present ones by `cmp`, and an absent one after every present one. -/
def absentLast {α : Type} (cmp : α → α → Ordering) : Option α → Option α → Ordering
  | some a, some b => cmp a b
  | some _, none => .lt
  | none, some _ => .gt
  | none, none => .eq

/-- The stable sort of a list by a key: elements with equal keys keep their order. -/
def sortOn {α κ : Type} (key : α → κ) (cmp : κ → κ → Ordering) (l : List α) : List α :=
  l.mergeSort fun a b => (cmp (key a) (key b)).isLE

/-- The elements of `l`, which follows an element with the key `last`, without those whose key is
that of the element kept before them. -/
def dropRepeatsAfter {α κ : Type} [DecidableEq κ] (key : α → κ) (last : κ) : List α → List α
  | [] => []
  | a :: rest =>
    if key a = last then dropRepeatsAfter key last rest
    else a :: dropRepeatsAfter key (key a) rest

/-- Keeps the first of each run of neighbours with equal keys. -/
def dropRepeats {α κ : Type} [DecidableEq κ] (key : α → κ) : List α → List α
  | [] => []
  | a :: rest => a :: dropRepeatsAfter key (key a) rest

end Thesaurus
