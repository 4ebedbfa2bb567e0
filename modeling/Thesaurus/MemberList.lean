import Thesaurus.Issue
import Thesaurus.Rdf.Term
import Thesaurus.Table

/-!
# Member lists (design §4.2)

An ordered list is given as a chain of cells, each with an element and the next cell. Cells arrive
in any order, so a chain is followed only when all are known.

- `ListCell`, `CellStore`: the cells and what is known of each.
- `CellStore.fill`: records a value of a cell; the first value given is kept.
- `CellStore.chain`: the cells of a list, and how the chain ends.
- `CellStore.resolve`: the elements of a list, and what is wrong with it.
-/

namespace Thesaurus

open Rdf (Node)

/-- What is known of a list cell (a list node in §3): its element and the next cell. -/
structure ListCell where
  first : Option Node := none
  rest : Option Node := none
deriving DecidableEq, Inhabited, Repr

namespace ListCell

/-- The value of a slot. -/
def get (cell : ListCell) : CellSlot → Option Node
  | .first => cell.first
  | .rest => cell.rest

/-- The cell with a value in a slot. -/
def set (cell : ListCell) (slot : CellSlot) (value : Node) : ListCell :=
  match slot with
  | .first => { cell with first := some value }
  | .rest => { cell with rest := some value }

end ListCell

/-- The list cells of which something is known (the store of §4.2), each with what is known of it,
in the order in which they were first mentioned. -/
structure CellStore where
  entries : List (Node × ListCell) := []
deriving DecidableEq, Inhabited, Repr

namespace CellStore

/-- The number of cells (`len`). -/
def size (s : CellStore) : Nat :=
  s.entries.length

/-- What is known of a cell, if anything. -/
def cell? (s : CellStore) (cell : Node) : Option ListCell :=
  s.entries.lookup cell

/-- The store in which `known` is what is known of a cell. -/
def put (s : CellStore) (cell : Node) (known : ListCell) : CellStore :=
  ⟨Table.putInto cell known s.entries⟩

/-- Records a value of a cell (`set_once`). A slot that has a value already keeps it. -/
def fill (s : CellStore) (cell : Node) (slot : CellSlot) (value : Node) : CellStore :=
  let known := (s.cell? cell).getD {}
  match known.get slot with
  | none => s.put cell (known.set slot value)
  | some _ => s

/-- The issue with giving a cell a value, if its slot has another value already. -/
def fillIssue? (s : CellStore) (cell : Node) (slot : CellSlot) (value : Node) : Option Issue :=
  match ((s.cell? cell).getD {}).get slot with
  | none => none
  | some kept => if kept = value then none else some (.cellConflict cell slot kept value)

/-! ## Following a chain -/

/-- How a chain of cells ends: with the list terminator, by coming back to a cell of the chain, with
a cell of which nothing is known, or with a cell that has no next cell. -/
inductive ChainEnd where
  | terminated
  | loops (cell : Node)
  | undeclared (cell : Node)
  | cutOff (cell : Node)
deriving DecidableEq, Repr

/-- The cells of a list in order, with what is known of each, and how the chain ends. -/
structure Chain where
  cells : List (Node × ListCell)
  ending : ChainEnd
deriving DecidableEq, Repr

/-- Puts a cell in front of a chain. -/
def Chain.cons (cell : Node) (known : ListCell) (c : Chain) : Chain :=
  { c with cells := (cell, known) :: c.cells }

/-- The entries of all cells but one. -/
def dropCell (cell : Node) (entries : List (Node × ListCell)) : List (Node × ListCell) :=
  entries.filter (·.1 != cell)

/-- Dropping a cell that is there leaves fewer entries. -/
theorem length_dropCell_lt {entries : List (Node × ListCell)} {cell : Node}
    {known : ListCell} (h : entries.lookup cell = some known) :
    (dropCell cell entries).length < entries.length := by
  apply List.length_filter_lt_length_iff_exists.2
  induction entries with
  | nil => simp at h
  | cons entry rest ih =>
    rw [List.lookup_cons] at h
    split at h
    · next heq => exact ⟨entry, List.mem_cons_self, by simp_all⟩
    · obtain ⟨other, hmem, heq⟩ := ih h
      exact ⟨other, List.mem_cons_of_mem _ hmem, heq⟩

/-- Follows the chain from `current` through the cells `fresh`, which it has not met before. -/
def follow (s : CellStore) (fresh : List (Node × ListCell)) (current : Node) : Chain :=
  if current.isNil then ⟨[], .terminated⟩
  else
    match _h : fresh.lookup current with
    | none => ⟨[], if (s.cell? current).isSome then .loops current else .undeclared current⟩
    | some known =>
      match known.rest with
      | none => ⟨[(current, known)], .cutOff current⟩
      | some next =>
        (s.follow (dropCell current fresh) next).cons current known
termination_by fresh.length
decreasing_by exact length_dropCell_lt _h

/-- The chain of cells that starts at `head`. -/
def chain (s : CellStore) (head : Node) : Chain :=
  s.follow s.entries head

/-! ## Elements and issues -/

/-- What `resolve` finds (§4.2): the elements of a list, each at its first place, and the issues in
the order of the cells. -/
structure Resolution where
  elements : List Node
  issues : List Issue
deriving DecidableEq, Repr

/-- The element of a cell: the terminator is none. -/
def elementOf? (known : ListCell) : Option Node :=
  match known.first with
  | some value => if value.isNil then none else some value
  | none => none

/-- The issue with the element of a cell. -/
def elementIssue? (owner cell : Node) (known : ListCell) : Option Issue :=
  match known.first with
  | some value => if value.isNil then some (.terminatorAsElement owner cell) else none
  | none => some (.missingFirst owner cell)

/-- The issue with the end of a chain. -/
def ChainEnd.issue? (owner : Node) : ChainEnd → Option Issue
  | .terminated => none
  | .loops cell => some (.listCycle owner cell)
  | .undeclared cell => some (.undeclaredCell owner cell)
  | .cutOff cell => some (.missingRest owner cell)

/-- The elements of the list of `owner` that starts at `head`, gathered as far as the chain goes,
with each element only at its first place. -/
def resolve (s : CellStore) (owner head : Node) : Resolution :=
  let c := s.chain head
  { elements := (c.cells.filterMap fun cell => elementOf? cell.2).eraseDups
    issues := (c.cells.filterMap fun cell => elementIssue? owner cell.1 cell.2)
      ++ (c.ending.issue? owner).toList }

end CellStore

end Thesaurus
