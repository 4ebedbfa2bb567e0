import Thesaurus.Rdf.Term
import Thesaurus.Rdf.Vocabulary
import Thesaurus.Resource.Kind
import Thesaurus.Text.Markup

/-!
# Issues (design §7, §D)

Problems in the data never stop a transform. They are recorded in the order in which they are
found, and shown as text that is safe to put into markup.

- `Issue`: what can be wrong with the data.
- `IssueKind`: the classes of issues.
- `Diagnostic`: an issue as it is shown, by its kind and a markup-safe message.
-/

namespace Thesaurus

open Rdf (Node Predicate Relation)

/-- The classes of data errors (§7): a statement contradicts the kind of a resource; a literal
stands where a resource is required; a member list loops back on itself; it has the list terminator
as an element; a slot or a member list was given two values; a cell lacks a value or was never
declared; a list disagrees with the members; a scheme is a member of a collection; a declared top
concept has a broader concept in its own scheme; and the traversal came back to a resource it is
still inside of. -/
inductive IssueKind where
  | typeConflict
  | literalAsResource
  | listCycle
  | listTerminatorAsValue
  | listConflict
  | listBroken
  | orderedMembersMismatch
  | wrongMemberKind
  | topConceptHasBroader
  | hierarchyCycle
deriving DecidableEq, Inhabited, Repr

/-- The two values of a list cell: its element, and the cell that follows. -/
inductive CellSlot where
  | first
  | rest
deriving DecidableEq, Inhabited, Repr

/-- The relation that fills a slot. -/
def CellSlot.relation : CellSlot → Relation
  | first => .listFirst
  | rest => .listRest

/-- A data error (§7) with all that its message names. The class of each is `Issue.kind`:
`cellConflict` and `memberListConflict` are the two conflicts of lists, and `undeclaredCell`,
`missingFirst` and `missingRest` are the three ways in which a list is broken. -/
inductive Issue where
  | typeConflict (node : Node) (current requested : Kind) (cause : Relation)
  | literalAsResource (subject : Node) (predicate : Predicate) (value : String)
  | cellConflict (cell : Node) (slot : CellSlot) (kept refused : Node)
  | memberListConflict (collection kept refused : Node)
  | listCycle (owner cell : Node)
  | undeclaredCell (owner cell : Node)
  | missingFirst (owner cell : Node)
  | missingRest (owner cell : Node)
  | terminatorAsElement (owner cell : Node)
  | orderedMembersMismatch (collection : Node) (notMembers notListed : List Node)
  | wrongMemberKind (collection scheme : Node)
  | topConceptHasBroader (concept scheme broader : Node)
  | hierarchyCycle (ancestor parent : Node)
deriving DecidableEq, Repr

namespace Issue

/-- The class of an issue. -/
def kind : Issue → IssueKind
  | typeConflict .. => .typeConflict
  | literalAsResource .. => .literalAsResource
  | cellConflict .. | memberListConflict .. => .listConflict
  | listCycle .. => .listCycle
  | undeclaredCell .. | missingFirst .. | missingRest .. => .listBroken
  | terminatorAsElement .. => .listTerminatorAsValue
  | orderedMembersMismatch .. => .orderedMembersMismatch
  | wrongMemberKind .. => .wrongMemberKind
  | topConceptHasBroader .. => .topConceptHasBroader
  | hierarchyCycle .. => .hierarchyCycle

/-- A node as messages show it. -/
def shown (n : Node) : String :=
  Text.Markup.escape n.text

/-- Nodes as messages show them, separated by commas. -/
def shownList (nodes : List Node) : String :=
  String.intercalate ", " (nodes.map shown)

/-- The message for an issue. What comes from the data is escaped. -/
def message : Issue → String
  | typeConflict node current requested cause =>
    shown node ++ " is a " ++ current.name ++ " and cannot also be a " ++ requested.name
      ++ " (from " ++ cause.curie ++ "); the assertion was skipped."
  | literalAsResource subject predicate value =>
    shown subject ++ " " ++ predicate.curie ++ " has the literal \"" ++ Text.Markup.escape value
      ++ "\" where a resource is required; the assertion was skipped."
  | cellConflict cell slot kept refused =>
    "List node " ++ shown cell ++ " has conflicting " ++ slot.relation.curie ++ " values "
      ++ shown kept ++ " and " ++ shown refused ++ "; keeping the first."
  | memberListConflict collection kept refused =>
    shown collection ++ " has two member lists (" ++ shown kept ++ " and " ++ shown refused
      ++ "); keeping the first."
  | listCycle owner cell =>
    "Member list of " ++ shown owner ++ " loops back to list node " ++ shown cell ++ "."
  | undeclaredCell owner cell =>
    "Member list of " ++ shown owner ++ " refers to undeclared list node " ++ shown cell ++ "."
  | missingFirst owner cell =>
    "List node " ++ shown cell ++ " in the member list of " ++ shown owner ++ " has no rdf:first."
  | missingRest owner cell =>
    "List node " ++ shown cell ++ " in the member list of " ++ shown owner
      ++ " has no rdf:rest; the list is cut off there."
  | terminatorAsElement owner cell =>
    "Member list of " ++ shown owner ++ " uses rdf:nil as an element at list node " ++ shown cell
      ++ "; rdf:nil may only terminate a list."
  | orderedMembersMismatch collection notMembers notListed =>
    "Ordered collection " ++ shown collection ++ " has a member list that disagrees with its "
      ++ "skos:member statements; the declared order is ignored."
      ++ (if notMembers.isEmpty then ""
        else " Listed but not members: " ++ shownList notMembers ++ ".")
      ++ (if notListed.isEmpty then ""
        else " Members not listed: " ++ shownList notListed ++ ".")
  | wrongMemberKind collection scheme =>
    "Collection " ++ shown collection ++ " lists the concept scheme " ++ shown scheme
      ++ " as a member; only concepts and collections can be members."
  | topConceptHasBroader concept scheme broader =>
    shown concept ++ " is a top concept of " ++ shown scheme ++ " but has the broader concept "
      ++ shown broader ++ " in the same scheme."
  | hierarchyCycle ancestor parent =>
    "Cycle detected: " ++ shown ancestor ++ " is an ancestor of " ++ shown parent
      ++ " and also listed below it; shown as a reference."

end Issue

/-- An issue as it is shown: its class, and a text that is safe to put into markup. -/
structure Diagnostic where
  kind : IssueKind
  message : String
deriving DecidableEq, Inhabited, Repr

namespace Diagnostic

/-- A diagnostic with a text of its own, which is escaped. -/
def ofText (kind : IssueKind) (raw : String) : Diagnostic :=
  ⟨kind, Text.Markup.escape raw⟩

/-- The number of diagnostics of one kind. -/
def count (kind : IssueKind) (diagnostics : List Diagnostic) : Nat :=
  diagnostics.countP (·.kind = kind)

/-- The messages, in order (`into_messages`). -/
def messages (diagnostics : List Diagnostic) : List String :=
  diagnostics.map (·.message)

end Diagnostic

/-- An issue as it is shown (`record`). -/
def Issue.diagnostic (i : Issue) : Diagnostic :=
  ⟨i.kind, i.message⟩

end Thesaurus
