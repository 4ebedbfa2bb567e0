import Thesaurus.IdSet
import Thesaurus.Order

/-!
# Descent in a relation between ids (design §F.6)

A relation is given by the list of the ids that each id leads to.

- `reach`: what can be reached from pending ids through fresh ones.
- `descendants`: what an id leads to in one or more steps.
- `component`: the ids that lead to an id and to which it leads.
- `levels`: how many components a longest descent from each id passes through.
- `peel`: what is left when ids that lead nowhere are removed again and again.
-/

namespace Thesaurus

namespace Hierarchy

/-- The ids that can be reached from the pending ones, which count as reached, through ids that are
fresh. Each is listed once, as it is found in depth-first order. -/
def reach (next : ResourceId → List ResourceId) (fresh : IdSet) :
    (pending : List ResourceId) → List ResourceId
  | [] => []
  | id :: rest =>
    if id ∈ fresh then id :: reach next (fresh.erase id) (next id ++ rest)
    else reach next fresh rest
termination_by pending => (fresh.size, pending.length)
decreasing_by
  · exact Prod.Lex.left _ _ (IdSet.size_erase_lt ‹_›)
  · exact Prod.Lex.right _ (Nat.lt_succ_self _)

/-- The ids below `bound` that an id leads to in one or more steps. -/
def descendants (next : ResourceId → List ResourceId) (bound : Nat) (id : ResourceId) : IdSet :=
  IdSet.ofList (reach next (IdSet.below bound) (next id))

/-- The descendants of each id below `bound`. -/
def descendantTable (next : ResourceId → List ResourceId) (bound : Nat) : Array IdSet :=
  (Array.range bound).map (descendants next bound)

/-! ## Components -/

/-- The ids that `id` leads to and that lead back to it; none unless `id` leads to itself. -/
def component (under : ResourceId → IdSet) (id : ResourceId) : IdSet :=
  (under id).filter fun other => id ∈ under other

/-- The components that are not empty, each once, found at their least id. -/
def components (under : ResourceId → IdSet) (ids : List ResourceId) : List IdSet :=
  (ids.filter fun id => (component under id).toList.head? = some id).map (component under)

/-! ## Levels -/

/-- The level above the levels of all ids that `id` leads to without return. -/
def levelOf (under : ResourceId → IdSet) (known : List (ResourceId × Nat)) (id : ResourceId) :
    Nat :=
  let lower := known.filter fun (other, _) => other ∈ under id && !(id ∈ under other : Bool)
  (lower.map (·.2)).foldl max 0 + 1

/-- The level of each id, where all that an id leads to without return is listed before it. -/
def levelsFrom (under : ResourceId → IdSet) (known : List (ResourceId × Nat)) :
    List ResourceId → List (ResourceId × Nat)
  | [] => known
  | id :: rest => levelsFrom under ((id, levelOf under known id) :: known) rest

/-- The ids, those that lead to fewer ids first. An id counts as leading to itself, so that an id
comes after all that it leads to without return. -/
def bottomUp (under : ResourceId → IdSet) (ids : List ResourceId) : List ResourceId :=
  sortOn (fun id => ((under id).insert id).size) compare ids

/-- The level of each id: how many components a longest descent from it passes through. -/
def levels (under : ResourceId → IdSet) (ids : List ResourceId) : List (ResourceId × Nat) :=
  levelsFrom under [] (bottomUp under ids)

/-- The highest level, or zero if there are no ids. -/
def depth (under : ResourceId → IdSet) (ids : List ResourceId) : Nat :=
  ((levels under ids).map (·.2)).foldl max 0

/-! ## Peeling -/

/-- The remaining ids that lead to a remaining id. -/
def leading (next : ResourceId → List ResourceId) (remaining : List ResourceId) :
    List ResourceId :=
  remaining.filter fun id => (next id).any (remaining.contains ·)

/-- What is left when the ids that lead to no remaining id are removed again and again. Nothing is
left just when no id leads to itself. -/
def peel (next : ResourceId → List ResourceId) (remaining : List ResourceId) : List ResourceId :=
  if (leading next remaining).length < remaining.length then peel next (leading next remaining)
  else remaining
termination_by remaining.length

end Hierarchy

end Thesaurus
