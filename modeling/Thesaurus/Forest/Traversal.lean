import Thesaurus.Forest.Context
import Thesaurus.Forest.Siblings

/-!
# The traversal that builds a forest (design §4.4)

Resources are placed in depth-first order. An edge to a resource that has not been visited places
it there; an edge to any other leads to a reference. If the resource is still open, that is, if the
edge closes a cycle, this is an issue. The open resources are kept on a list, so the depth of the
hierarchy is no limit.

- `Edge`: a resource to be shown, in a context or not.
- `Plan`, `Frame`: what opening a resource leads to, and a resource that is being placed.
- `place`: opens a resource and plans its edges.
- `Stage`, `turn`: the state of a traversal, and one turn of its loop.
- `run`, `grow`: the traversal below one resource.
- `roots`: the resources at which traversals start.
- `growEach`, `promote`, `build`: the forest of a graph.
-/

namespace Thesaurus

namespace Traversal

/-! ## Edges -/

/-- A resource to be shown below another (§4.4), in a scheme or collection if there is one, and at
its declared position in an ordered collection. -/
structure Edge where
  target : ResourceId
  context : Option ResourceId := none
  position : Option Nat := none
deriving DecidableEq, Repr

/-- Whether an edge leads to a declared top concept of the context in which it is shown
(`is_top`). -/
def leadsToTop (contexts : OpenContexts) (e : Edge) : Bool :=
  (e.context.bind contexts).any (·.isTop e.target)

/-- The key by which an edge is planned. -/
def edgeKey (g : ResourceGraph) (contexts : OpenContexts) (e : Edge) : Option SiblingKey :=
  g.resources[e.target]?.map (SiblingKey.ofResource · e.position (leadsToTop contexts e))

/-- Edges in the order in which they are followed: that of their keys. Of edges with equal keys the
last comes first. All of them have to lead to resources. -/
def schedule (g : ResourceGraph) (contexts : OpenContexts) (edges : List Edge) :
    Except Defect (List Edge) :=
  match g.requireAll (edges.map (·.target)) with
  | .error d => .error d
  | .ok () => .ok (sortOn (edgeKey g contexts) (absentLast SiblingKey.compare) edges.reverse)

/-- The narrower concepts of a concept outside all contexts (`master_narrower`). Where schemes are
shown, concepts that belong to one are shown only there. -/
def masterEdges (g : ResourceGraph) (concept : Resource) : Except Defect (List Edge) :=
  let narrower := concept.links.narrower.toList
  match g.requireAll narrower with
  | .error d => .error d
  | .ok () =>
    .ok ((narrower.filter fun id =>
      !(g.configuration.conceptSchemes && !(g.linksOf id).inSchemes.isEmpty)).map fun id =>
        { target := id })

/-- The edge to a member of an unordered collection. Concepts with a broader one among the members
are shown below that one, and only concepts and collections are shown. -/
def memberEdge? (g : ResourceGraph) (c : Context) (id : ResourceId) : Option Edge :=
  match g.kindOf id with
  | .concept => if c.hasBroader g id then none else some { target := id, context := some c.id }
  | .collection | .orderedCollection => some { target := id }
  | .conceptScheme | .unknown => none

/-- The edge to a member of an ordered collection, at its position. -/
def positionedEdge (c : Context) (id : ResourceId) (position : Nat) : Edge :=
  { target := id
    context := if id ∈ c.members then some c.id else none
    position := some position }

/-- What is shown directly below a collection. An ordered collection lists its members by position;
any other shows the concepts without a broader one among its members, and the collections. -/
def collectionEdges (g : ResourceGraph) (collection : Resource) (c : Context) :
    Except Defect (List Edge) :=
  if c.flat then
    .ok ((collection.links.orderedMembers.getD []).zipIdx.map fun (id, position) =>
      positionedEdge c id position)
  else
    let members := collection.links.members.toList
    match g.requireAll members with
    | .error d => .error d
    | .ok () => .ok (members.filterMap (memberEdge? g c))

/-- What is shown directly below a scheme or collection. -/
def contextEdges (g : ResourceGraph) (r : Resource) (c : Context) : Except Defect (List Edge) :=
  match r.kind with
  | .conceptScheme => .ok ((c.roots g).map fun id => { target := id, context := some r.id })
  | _ => collectionEdges g r c

/-! ## Plans -/

/-- What opening a resource leads to: what its node shows, the context that the resource is, and the
edges to what is shown below it. -/
structure Plan where
  entry : Entry
  opens : Option Context := none
  edges : List Edge
deriving DecidableEq

/-- The plan for a concept. It has the narrower concepts of its deputy if it is shown in a
context. -/
def conceptPlan (g : ResourceGraph) (contexts : OpenContexts) (e : Edge) (r : Resource)
    (entry : Entry) : Except Defect Plan :=
  match e.context with
  | none =>
    match masterEdges g r with
    | .error d => .error d
    | .ok edges => .ok { entry := entry, edges := edges }
  | some id =>
    match contexts id with
    | none => .error (.missingContext r.node)
    | some c =>
      let deputy := c.deputyOf r
      .ok
        { entry := { entry with view := deputy.view, topConcept := deputy.topConcept }
          edges := deputy.narrower.toList.map fun n => { target := n, context := some id } }

/-- The plan for a scheme or collection, which is a context itself. -/
def contextPlan (g : ResourceGraph) (r : Resource) (entry : Entry) : Except Defect Plan :=
  match Context.of g r with
  | .error d => .error d
  | .ok c =>
    match contextEdges g r c with
    | .error d => .error d
    | .ok edges => .ok { entry := entry, opens := some c, edges := edges }

/-- The plan for the resource that an edge leads to. -/
def plan (g : ResourceGraph) (contexts : OpenContexts) (e : Edge) (r : Resource) :
    Except Defect Plan :=
  let entry : Entry := { view := r.view, position := e.position }
  match r.kind with
  | .unknown => .error (.untypedResource r.node)
  | .concept => conceptPlan g contexts e r entry
  | .conceptScheme | .collection | .orderedCollection => contextPlan g r entry

/-! ## Frames -/

/-- A resource that is being placed (§4.4): what its node shows, the context that it is, the edges
still to be followed, in order, and the children so far, the latest first. -/
structure Frame where
  resource : Resource
  entry : Entry
  opens : Option Context := none
  pending : List Edge
  done : List (Tree Entry) := []
deriving DecidableEq

namespace Frame

/-- The frame with one more child. -/
def add (f : Frame) (child : Tree Entry) : Frame :=
  { f with done := child :: f.done }

/-- The frame with the given edges still to be followed. -/
def leaving (f : Frame) (later : List Edge) : Frame :=
  { f with pending := later }

/-- The frame with an edge to a member of its context. -/
def takeUp (f : Frame) (id : ResourceId) : Frame :=
  { f with pending := { target := id, context := f.opens.map (·.id) } :: f.pending }

/-- The finished node, with its children in order. -/
def close (f : Frame) : Tree Entry :=
  .node f.entry (sortSiblings f.done.reverse)

/-- The first member of the frame's context that has not been visited (`leftover_member`). -/
def leftover? (f : Frame) (unvisited : IdSet) : Option ResourceId :=
  f.opens.bind fun c => c.members.toList.find? (· ∈ unvisited)

theorem mem_of_leftover? {f : Frame} {unvisited : IdSet} {id : ResourceId}
    (h : f.leftover? unvisited = some id) : id ∈ unvisited := by
  obtain ⟨c, _, hfound⟩ := Option.bind_eq_some_iff.1 h
  simpa using List.find?_some hfound

end Frame

/-- The contexts of the open frames. -/
def openContexts : (frames : List Frame) → OpenContexts
  | [] => fun _ => none
  | f :: below => (openContexts below).enter f.opens

/-- Whether a resource is being placed. -/
def isOpen (frames : List Frame) (id : ResourceId) : Bool :=
  frames.any (·.resource.id == id)

/-- Opens the resource that an edge leads to (`open`). -/
def place (g : ResourceGraph) (contexts : OpenContexts) (e : Edge) : Except Defect Frame :=
  match g.resource e.target with
  | .error d => .error d
  | .ok r =>
    match plan g contexts e r with
    | .error d => .error d
    | .ok planned =>
      match schedule g (contexts.enter planned.opens) planned.edges with
      | .error d => .error d
      | .ok pending =>
        .ok { resource := r, entry := planned.entry, opens := planned.opens, pending := pending }

/-- The reference that an edge leads to. -/
def reference (g : ResourceGraph) (contexts : OpenContexts) (e : Edge) :
    Except Defect (Resource × Tree Entry) :=
  match g.resource e.target with
  | .error d => .error d
  | .ok r =>
    .ok (r, .leaf
      { view := r.view
        reference := true
        position := e.position
        topConcept := leadsToTop contexts e })

/-! ## Running -/

/-- What a traversal has found so far: the typed resources that are not placed yet, whether an edge
closed a cycle, whether no reference was needed, and the issues in the order in which they were
found. -/
structure Progress where
  unvisited : IdSet
  cycle : Bool := false
  onlyTreeEdges : Bool := true
  issues : List Issue := []
deriving DecidableEq

namespace Progress

/-- The progress after a resource is placed. -/
def visit (p : Progress) (id : ResourceId) : Progress :=
  { p with unvisited := p.unvisited.erase id }

/-- The progress after a reference to `target` below `parent`, which closes a cycle if the target
is being placed itself. -/
def refer (p : Progress) (parent target : Resource) (closesCycle : Bool) : Progress :=
  { p with
    cycle := p.cycle || closesCycle
    onlyTreeEdges := false
    issues :=
      if closesCycle then p.issues ++ [.hierarchyCycle target.node parent.node] else p.issues }

end Progress

/-- The state of a traversal: the open frames, the innermost first, and what was found so far. -/
structure Stage where
  frames : List Frame
  progress : Progress
deriving DecidableEq

/-- What a turn of the loop leads to: it goes on from another stage, or the root is closed. -/
inductive Turn where
  | next (stage : Stage)
  | finished (tree : Tree Entry) (progress : Progress)

/-- Follows an edge of the innermost frame. A resource that is not visited is opened; any other is
referred to. -/
def follow (g : ResourceGraph) (top : Frame) (below : List Frame) (p : Progress) (e : Edge) :
    Except Defect Stage :=
  if e.target ∈ p.unvisited then
    match place g (openContexts (top :: below)) e with
    | .error d => .error d
    | .ok frame => .ok ⟨frame :: top :: below, p.visit e.target⟩
  else
    match reference g (openContexts (top :: below)) e with
    | .error d => .error d
    | .ok (r, node) =>
      .ok ⟨top.add node :: below, p.refer top.resource r (isOpen (top :: below) e.target)⟩

/-- One turn of the loop that places the root with the given IRI. The innermost frame follows its
next edge; without one, a context takes up the first of its members that is still unvisited; without
any, the frame closes and its node becomes a child of the frame below. -/
def turn (g : ResourceGraph) (rootIri : String) (s : Stage) : Except Defect Turn :=
  match s.frames with
  | [] => .error (.stackUnderflow rootIri)
  | top :: below =>
    match top.pending with
    | e :: later =>
      match follow g (top.leaving later) below s.progress e with
      | .error d => .error d
      | .ok next => .ok (.next next)
    | [] =>
      match top.leftover? s.progress.unvisited with
      | some id => .ok (.next ⟨top.takeUp id :: below, s.progress⟩)
      | none =>
        match below with
        | [] => .ok (.finished top.close s.progress)
        | parent :: rest => .ok (.next ⟨parent.add top.close :: rest, s.progress⟩)

/-! ### The loop ends -/

/-- The work left in a frame: its pending edges, closing it, and taking up a leftover member if no
pending edge leads to an unvisited resource. -/
def Frame.workload (f : Frame) (unvisited : IdSet) : Nat :=
  f.pending.length + 1 + if f.pending.any (·.target ∈ unvisited) then 0 else 2

/-- The work left in all frames. -/
def workload (unvisited : IdSet) : (frames : List Frame) → Nat
  | [] => 0
  | f :: rest => f.workload unvisited + workload unvisited rest

/-- What decreases with every turn: resources are placed, and between two placements the work
shrinks. -/
def Stage.measure (s : Stage) : Nat × Nat :=
  (s.progress.unvisited.size, workload s.progress.unvisited s.frames)

@[simp] theorem workload_cons (unvisited : IdSet) (f : Frame) (rest : List Frame) :
    workload unvisited (f :: rest) = f.workload unvisited + workload unvisited rest :=
  rfl

theorem Frame.workload_pos (f : Frame) (unvisited : IdSet) : 0 < f.workload unvisited := by
  unfold Frame.workload
  omega

/-- Placing a resource leaves fewer unvisited ones. -/
theorem visit_decreases {frames frames' : List Frame} {p : Progress} {id : ResourceId}
    (hunvisited : id ∈ p.unvisited) :
    Prod.Lex (· < ·) (· < ·) (Stage.mk frames' (p.visit id)).measure (Stage.mk frames p).measure :=
  Prod.Lex.left _ _ (IdSet.size_erase_lt hunvisited)

/-- Referring to a resource uses an edge up. -/
theorem refer_decreases {top : Frame} {below : List Frame} {p : Progress} {e : Edge}
    {later : List Edge} {node : Tree Entry} {parent target : Resource} {closesCycle : Bool}
    (hp : top.pending = e :: later) (hvisited : e.target ∉ p.unvisited) :
    Prod.Lex (· < ·) (· < ·)
      (Stage.mk ((top.leaving later).add node :: below) (p.refer parent target closesCycle)).measure
      (Stage.mk (top :: below) p).measure := by
  refine Prod.Lex.right _ ?_
  simp [Progress.refer, Frame.add, Frame.leaving, Frame.workload, hp, hvisited]

/-- Taking up a leftover member is less work than the promise to do so. -/
theorem takeUp_decreases {top : Frame} {below : List Frame} {p : Progress} {id : ResourceId}
    (hunvisited : id ∈ p.unvisited) (hp : top.pending = []) :
    Prod.Lex (· < ·) (· < ·) (Stage.mk (top.takeUp id :: below) p).measure
      (Stage.mk (top :: below) p).measure := by
  refine Prod.Lex.right _ ?_
  simp [Frame.takeUp, Frame.workload, hp, hunvisited]

/-- Closing a frame leaves the work of the others. -/
theorem close_decreases {top parent : Frame} {rest : List Frame} {p : Progress} :
    Prod.Lex (· < ·) (· < ·) (Stage.mk (parent.add top.close :: rest) p).measure
      (Stage.mk (top :: parent :: rest) p).measure := by
  refine Prod.Lex.right _ ?_
  have hpositive := top.workload_pos p.unvisited
  have hsame : (parent.add top.close).workload p.unvisited = parent.workload p.unvisited := rfl
  simp only [workload_cons, hsame]
  omega

/-- Every turn of the loop decreases the measure. -/
theorem turn_decreases {g : ResourceGraph} {rootIri : String} {s next : Stage}
    (h : turn g rootIri s = .ok (.next next)) :
    Prod.Lex (· < ·) (· < ·) next.measure s.measure := by
  obtain ⟨frames, p⟩ := s
  unfold turn at h
  split at h
  · cases h
  · next top below heq =>
    cases heq
    split at h
    · next e later hp =>
      unfold follow at h
      split at h
      · cases h
      · next hfollowed =>
        cases h
        split at hfollowed
        · next hunvisited =>
          split at hfollowed
          · cases hfollowed
          · cases hfollowed
            exact visit_decreases hunvisited
        · next hvisited =>
          split at hfollowed
          · cases hfollowed
          · cases hfollowed
            exact refer_decreases hp hvisited
    · next hp =>
      split at h
      · next hleftover =>
        cases h
        exact takeUp_decreases (Frame.mem_of_leftover? hleftover) hp
      · split at h
        · cases h
        · cases h
          exact close_decreases

/-- Takes turns until the root is closed. -/
def run (g : ResourceGraph) (rootIri : String) (s : Stage) :
    Except Defect (Tree Entry × Progress) :=
  match _h : turn g rootIri s with
  | .error d => .error d
  | .ok (.finished tree p) => .ok (tree, p)
  | .ok (.next later) => run g rootIri later
termination_by s.measure
decreasing_by exact turn_decreases _h

/-- The tree that the traversal grows from one edge. -/
def grow (g : ResourceGraph) (e : Edge) (p : Progress) : Except Defect (Tree Entry × Progress) :=
  match place g (openContexts []) e with
  | .error d => .error d
  | .ok frame => run g frame.entry.iri ⟨[frame], p.visit e.target⟩

/-- What is unvisited at the end of a traversal is no more than at its start. -/
theorem size_of_run {g : ResourceGraph} {rootIri : String} {s : Stage} {tree : Tree Entry}
    {p : Progress} (h : run g rootIri s = .ok (tree, p)) :
    p.unvisited.size ≤ s.progress.unvisited.size := by
  fun_induction run g rootIri s with
  | case1 => cases h
  | case2 s tree' p' hfinished =>
    cases h
    unfold turn at hfinished
    split at hfinished
    · cases hfinished
    · split at hfinished
      · split at hfinished <;> cases hfinished
      · split at hfinished
        · cases hfinished
        · split at hfinished
          · cases hfinished
            exact Nat.le_refl _
          · cases hfinished
  | case3 s later hstep ih =>
    have hdecreases := turn_decreases hstep
    have hbound := ih h
    rcases (Prod.lex_def.1 hdecreases) with hlt | ⟨heq, _⟩
    · exact Nat.le_trans hbound (Nat.le_of_lt hlt)
    · exact Nat.le_trans hbound (Nat.le_of_eq heq)

/-- Growing a tree from an unvisited resource leaves fewer unvisited ones. -/
theorem size_of_grow {g : ResourceGraph} {e : Edge} {p p' : Progress} {tree : Tree Entry}
    (h : grow g e p = .ok (tree, p')) (hunvisited : e.target ∈ p.unvisited) :
    p'.unvisited.size < p.unvisited.size := by
  unfold grow at h
  split at h
  · cases h
  · exact Nat.lt_of_le_of_lt (size_of_run h) (IdSet.size_erase_lt hunvisited)

/-! ## Roots -/

/-- Whether one of the given resources belongs to no scheme. They are looked up in order until one
is found. -/
def anyOutsideSchemes (g : ResourceGraph) : List ResourceId → Except Defect Bool
  | [] => .ok false
  | id :: rest =>
    match g.resource id with
    | .error d => .error d
    | .ok r => if r.links.inSchemes.isEmpty then .ok true else anyOutsideSchemes g rest

/-- Whether a concept is a root: it belongs to no scheme, has no broader concept outside all
schemes, and is in no collection. Where schemes are shown, a member of a collection is still a root
if a narrower concept of it lies in no scheme. -/
def isConceptRoot (g : ResourceGraph) (concept : Resource) : Except Defect Bool :=
  let schemes := g.configuration.conceptSchemes
  if schemes && !concept.links.inSchemes.isEmpty then .ok false
  else
    match anyOutsideSchemes g concept.links.broader.toList with
    | .error d => .error d
    | .ok true => .ok false
    | .ok false =>
      if !g.configuration.collections || concept.links.inCollections.isEmpty then .ok true
      else if !schemes then .ok false
      else anyOutsideSchemes g concept.links.narrower.toList

/-- The concepts among some resources that are roots. -/
def conceptRoots (g : ResourceGraph) : List Resource → Except Defect (List Resource)
  | [] => .ok []
  | r :: rest =>
    match if r.kind = .concept then isConceptRoot g r else .ok false with
    | .error d => .error d
    | .ok isRoot =>
      match conceptRoots g rest with
      | .error d => .error d
      | .ok others => .ok (if isRoot then r :: others else others)

/-- Resources in the order in which they are shown. -/
def inDisplayOrder (resources : List Resource) : List Resource :=
  sortOn (SiblingKey.ofResource · none false) SiblingKey.compare resources

/-- The resources at which traversals start: concepts, then schemes, then collections that are in no
collection (`select_roots`). -/
def roots (g : ResourceGraph) : Except Defect (List ResourceId) :=
  let all := g.resources.toList
  match conceptRoots g all with
  | .error d => .error d
  | .ok concepts =>
    let schemes := all.filter fun r => r.kind = .conceptScheme && g.configuration.conceptSchemes
    let collections := all.filter fun r =>
      r.kind.isCollection && g.configuration.collections && r.links.inCollections.isEmpty
    .ok ((inDisplayOrder concepts ++ inDisplayOrder schemes ++ inDisplayOrder collections).map
      (·.id))

/-! ## The forest of a graph -/

/-- Grows a tree from each of the given resources that is not visited by then. -/
def growEach (g : ResourceGraph) :
    List ResourceId → Progress → Except Defect (Forest × Progress)
  | [], p => .ok ([], p)
  | id :: rest, p =>
    if id ∈ p.unvisited then
      match grow g { target := id } p with
      | .error d => .error d
      | .ok (tree, p) =>
        match growEach g rest p with
        | .error d => .error d
        | .ok (trees, p) => .ok (tree :: trees, p)
    else growEach g rest p

/-- Grows a tree from the first unvisited resource, again and again, until all are visited. -/
def promote (g : ResourceGraph) (p : Progress) : Except Defect (Forest × Progress) :=
  match _hp : p.unvisited.toList with
  | [] => .ok ([], p)
  | id :: _ =>
    match _hg : grow g { target := id } p with
    | .error d => .error d
    | .ok (tree, later) =>
      match promote g later with
      | .error d => .error d
      | .ok (trees, last) => .ok (tree :: trees, last)
termination_by p.unvisited.size
decreasing_by exact size_of_grow _hg (IdSet.mem_def.2 (_hp ▸ List.mem_cons_self))

/-- The typed resources of a graph. -/
def typedIds (g : ResourceGraph) : IdSet :=
  (IdSet.below g.size).filter fun id => (g.kindOf id).isKnown

/-- The forest, whether an edge closed a cycle, whether no reference was needed, and the issues in
the order in which they were found. -/
structure Built where
  forest : Forest
  cycle : Bool
  onlyTreeEdges : Bool
  issues : List Issue
deriving DecidableEq

/-- The forest of a graph: trees are grown from the roots, and then from whatever lies on cycles
that no root reaches, by ascending id. -/
def build (g : ResourceGraph) : Except Defect Built :=
  match roots g with
  | .error d => .error d
  | .ok planned =>
    match growEach g planned { unvisited := typedIds g } with
    | .error d => .error d
    | .ok (trees, p) =>
      match promote g p with
      | .error d => .error d
      | .ok (promoted, p) =>
        .ok ⟨sortSiblings (trees ++ promoted), p.cycle, p.onlyTreeEdges, p.issues⟩

end Traversal

end Thesaurus
