import Thesaurus.Forest.Traversal
import Thesaurus.Table

/-!
# The forest builder (design §4.4)

The traversal as it is run (§4.4). Two tables tell which resources are being placed and which
contexts are open. They are changed when a resource is opened and when it is closed, and live on
from one tree to the next.

- `State`: the tables, and what was found so far.
- `State.enter`, `State.leave`: a resource is opened, and it is closed.
- `Stage`, `turn`: the state of a traversal, and one turn of its loop.
- `run`, `grow`: the traversal below one resource.
- `growEach`, `promote`, `build`: the forest of a graph.
-/

namespace Thesaurus

namespace Builder

open Traversal (Built Edge Frame Progress place reference roots typedIds)

/-! ## The tables -/

/-- What outlives a turn: what was found so far, the resources that are being placed, and the open
contexts by their ids. -/
structure State where
  progress : Progress
  active : IdSet := ∅
  contexts : Table ResourceId Context := ∅
deriving DecidableEq

namespace State

/-- The state after the resource with a given id was opened. -/
def enter (s : State) (id : ResourceId) (f : Frame) : State where
  progress := s.progress.visit id
  active := s.active.insert id
  contexts := f.opens.elim s.contexts fun c => s.contexts.insert c.id c

/-- The state after a frame was closed (`close`). -/
def leave (s : State) (f : Frame) : State :=
  { s with
    active := s.active.erase f.resource.id
    contexts := f.opens.elim s.contexts fun c => s.contexts.erase c.id }

/-- The state after a reference to `target` below `parent`. The edge closes a cycle if it leads to a
resource that is being placed. -/
def refer (s : State) (parent target : Resource) (e : Edge) : State :=
  { s with progress := s.progress.refer parent target (e.target ∈ s.active) }

/-- The first unvisited member of the context that a frame opened (`leftover_member`). -/
def leftover? (s : State) (f : Frame) : Option ResourceId :=
  (f.opens.bind fun c => s.contexts.get? c.id).bind fun c =>
    c.members.toList.find? (· ∈ s.progress.unvisited)

theorem mem_of_leftover? {s : State} {f : Frame} {id : ResourceId}
    (h : s.leftover? f = some id) : id ∈ s.progress.unvisited := by
  obtain ⟨c, _, hfound⟩ := Option.bind_eq_some_iff.1 h
  simpa using List.find?_some hfound

end State

/-! ## Running -/

/-- The state of a traversal: the open frames, the innermost first, and what outlives a turn. -/
structure Stage where
  frames : List Frame
  state : State
deriving DecidableEq

/-- The stage without its tables. -/
def Stage.bare (s : Stage) : Traversal.Stage :=
  ⟨s.frames, s.state.progress⟩

/-- What a turn of the loop leads to: the next stage, or the tree when the root is closed. -/
inductive Turn where
  | next (stage : Stage)
  | finished (tree : Tree Entry) (state : State)

/-- Follows an edge of the innermost frame. A resource that is not visited is opened; any other is
referred to. -/
def follow (g : ResourceGraph) (top : Frame) (below : List Frame) (s : State) (e : Edge) :
    Except Defect Stage :=
  if e.target ∈ s.progress.unvisited then
    match place g s.contexts.get? e with
    | .error d => .error d
    | .ok f => .ok ⟨f :: top :: below, s.enter e.target f⟩
  else
    match reference g s.contexts.get? e with
    | .error d => .error d
    | .ok (r, node) => .ok ⟨top.add node :: below, s.refer top.resource r e⟩

/-- One turn of the loop that places the root with the given IRI. The innermost frame follows its
next edge; without one, a context takes up the first of its members that is still unvisited; without
any, the frame closes and its node becomes a child of the frame below. -/
def turn (g : ResourceGraph) (rootIri : String) (s : Stage) : Except Defect Turn :=
  match s.frames with
  | [] => .error (.stackUnderflow rootIri)
  | top :: below =>
    match top.pending with
    | e :: later =>
      match follow g (top.leaving later) below s.state e with
      | .error d => .error d
      | .ok next => .ok (.next next)
    | [] =>
      match s.state.leftover? top with
      | some id => .ok (.next ⟨top.takeUp id :: below, s.state⟩)
      | none =>
        match below with
        | [] => .ok (.finished top.close (s.state.leave top))
        | parent :: rest => .ok (.next ⟨parent.add top.close :: rest, s.state.leave top⟩)

/-- Every turn of the loop decreases the measure. -/
theorem turn_decreases {g : ResourceGraph} {rootIri : String} {s next : Stage}
    (h : turn g rootIri s = .ok (.next next)) :
    Prod.Lex (· < ·) (· < ·) next.bare.measure s.bare.measure := by
  obtain ⟨frames, state⟩ := s
  unfold turn follow at h
  split at h
  · cases h
  · next top below heq =>
    cases heq
    split at h
    · next e later hp =>
      split at h
      · cases h
      · next hfollowed =>
        cases h
        split at hfollowed
        · next hunvisited =>
          split at hfollowed
          · cases hfollowed
          · cases hfollowed
            exact Traversal.visit_decreases hunvisited
        · next hvisited =>
          split at hfollowed
          · cases hfollowed
          · cases hfollowed
            exact Traversal.refer_decreases hp hvisited
    · next hp =>
      split at h
      · next hleftover =>
        cases h
        exact Traversal.takeUp_decreases (State.mem_of_leftover? hleftover) hp
      · split at h
        · cases h
        · cases h
          exact Traversal.close_decreases

/-- Takes turns until the root is closed. -/
def run (g : ResourceGraph) (rootIri : String) (s : Stage) : Except Defect (Tree Entry × State) :=
  match _h : turn g rootIri s with
  | .error d => .error d
  | .ok (.finished tree last) => .ok (tree, last)
  | .ok (.next later) => run g rootIri later
termination_by s.bare.measure
decreasing_by exact turn_decreases _h

/-- The tree that the traversal grows from one edge. -/
def grow (g : ResourceGraph) (e : Edge) (s : State) : Except Defect (Tree Entry × State) :=
  match place g s.contexts.get? e with
  | .error d => .error d
  | .ok f => run g f.entry.iri ⟨[f], s.enter e.target f⟩

/-- Closing the root visits nothing. -/
theorem progress_of_finished {g : ResourceGraph} {rootIri : String} {s : Stage} {tree : Tree Entry}
    {last : State} (h : turn g rootIri s = .ok (.finished tree last)) :
    last.progress = s.state.progress := by
  unfold turn at h
  split at h
  · cases h
  · split at h
    · split at h <;> cases h
    · split at h
      · cases h
      · split at h
        · cases h
          rfl
        · cases h

/-- What is unvisited at the end of a traversal is no more than at its start. -/
theorem size_of_run {g : ResourceGraph} {rootIri : String} {s : Stage} {tree : Tree Entry}
    {last : State} (h : run g rootIri s = .ok (tree, last)) :
    last.progress.unvisited.size ≤ s.state.progress.unvisited.size := by
  fun_induction run g rootIri s with
  | case1 => cases h
  | case2 s tree' last' hfinished =>
    cases h
    exact Nat.le_of_eq (congrArg (·.unvisited.size) (progress_of_finished hfinished))
  | case3 s later hstep ih =>
    have hbound := ih h
    rcases Prod.lex_def.1 (turn_decreases hstep) with hlt | ⟨heq, _⟩
    · exact Nat.le_trans hbound (Nat.le_of_lt hlt)
    · exact Nat.le_trans hbound (Nat.le_of_eq heq)

/-- Growing a tree from an unvisited resource leaves fewer unvisited ones. -/
theorem size_of_grow {g : ResourceGraph} {e : Edge} {s last : State} {tree : Tree Entry}
    (h : grow g e s = .ok (tree, last)) (hunvisited : e.target ∈ s.progress.unvisited) :
    last.progress.unvisited.size < s.progress.unvisited.size := by
  unfold grow at h
  split at h
  · cases h
  · exact Nat.lt_of_le_of_lt (size_of_run h) (IdSet.size_erase_lt hunvisited)

/-! ## The forest of a graph -/

/-- Grows a tree from each of the given resources that is not visited by then. -/
def growEach (g : ResourceGraph) : List ResourceId → State → Except Defect (Forest × State)
  | [], s => .ok ([], s)
  | id :: rest, s =>
    if id ∈ s.progress.unvisited then
      match grow g { target := id } s with
      | .error d => .error d
      | .ok (tree, s) =>
        match growEach g rest s with
        | .error d => .error d
        | .ok (trees, s) => .ok (tree :: trees, s)
    else growEach g rest s

/-- Grows a tree from the first unvisited resource, again and again, until all are visited. -/
def promote (g : ResourceGraph) (s : State) : Except Defect (Forest × State) :=
  match _hs : s.progress.unvisited.toList with
  | [] => .ok ([], s)
  | id :: _ =>
    match _hg : grow g { target := id } s with
    | .error d => .error d
    | .ok (tree, later) =>
      match promote g later with
      | .error d => .error d
      | .ok (trees, last) => .ok (tree :: trees, last)
termination_by s.progress.unvisited.size
decreasing_by exact size_of_grow _hg (IdSet.mem_def.2 (_hs ▸ List.mem_cons_self))

/-- The forest of a graph: trees are grown from the roots, and then from whatever they did not lead
to, by ascending id. -/
def build (g : ResourceGraph) : Except Defect Built :=
  match roots g with
  | .error d => .error d
  | .ok planned =>
    match growEach g planned { progress := { unvisited := typedIds g } } with
    | .error d => .error d
    | .ok (trees, s) =>
      match promote g s with
      | .error d => .error d
      | .ok (promoted, s) =>
        .ok ⟨sortSiblings (trees ++ promoted), s.progress.cycle, s.progress.onlyTreeEdges,
          s.progress.issues⟩

end Builder

end Thesaurus
