import Thesaurus.Proofs.Forest.BackEdges
import Thesaurus.Proofs.Forest.Renaming

/-!
# The traversal as a recursion

The loop keeps the open resources on a list. It does what a recursive depth-first search does: a
resource is visited, its edges are followed in the order of their keys, a context takes up the
members that are left, and the children are put in order.

- `descend`, `followAll`, `gather`: the search, by recursion on what is unvisited.
- `agrees`, `grow_eq`: the loop gives what the search gives, in every graph, errors included.
- `TreeRule`, `TreeRule.finds`: the search never fails in a sound graph, and what holds of a node if
  it holds of what is below holds of all trees that it finds.
- `Phases.follows`: so it holds of all trees of the forest.
- `schedule_ascending`, `nextMember?_eq_some`: the order in which the search goes.
- `grow_recursive`: the tree that is grown is that of the search, and so is all that was found.
-/

namespace Thesaurus

namespace Traversal

/-! ## The search -/

/-- The progress that is reached from `p` when nothing becomes unvisited. -/
abbrev Progress.Since (p : Progress) : Type :=
  { q : Progress // q.unvisited.size ≤ p.unvisited.size }

/-- The progress that is reached from `p` when something was visited. -/
abbrev Progress.Beyond (p : Progress) : Type :=
  { q : Progress // q.unvisited.size < p.unvisited.size }

/-- Where the search stands: the resources above, the innermost first, and the open contexts among
them. -/
structure Surroundings where
  ancestors : List Resource := []
  contexts : OpenContexts := fun _ => none

/-- The surroundings below a resource, which is a context itself or not. -/
def Surroundings.enter (s : Surroundings) (r : Resource) (opens : Option Context) :
    Surroundings where
  ancestors := r :: s.ancestors
  contexts := s.contexts.enter opens

/-- The first member of an open context that is not visited. -/
def nextMember? (opens : Option Context) (u : IdSet) : Option ResourceId :=
  opens.bind fun c => c.members.toList.find? (· ∈ u)

theorem mem_of_nextMember? {opens : Option Context} {u : IdSet} {id : ResourceId}
    (h : nextMember? opens u = some id) : id ∈ u := by
  obtain ⟨c, _, hfound⟩ := Option.bind_eq_some_iff.1 h
  simpa using List.find?_some hfound

mutual

/-- Visits the resource that an edge leads to and places it, with everything below it. -/
def descend (g : ResourceGraph) (s : Surroundings) (e : Edge) (p : Progress)
    (fresh : e.target ∈ p.unvisited) : Except Defect (Tree Entry × p.Beyond) := do
  let r ← g.resource e.target
  let planned ← plan g s.contexts e r
  let inside := s.enter r planned.opens
  let edges ← schedule g inside.contexts planned.edges
  let (children, q) ← followAll g inside r edges (p.visit e.target)
  let (others, last) ← gather g inside planned.opens q.val
  return (.node planned.entry (sortSiblings (children ++ others)), ⟨last.val,
    Nat.lt_of_le_of_lt (Nat.le_trans last.property q.property) (IdSet.size_erase_lt fresh)⟩)
termination_by (p.unvisited.size, 0, 0)
decreasing_by
  · exact Prod.Lex.left _ _ (IdSet.size_erase_lt fresh)
  · exact Prod.Lex.left _ _ (Nat.lt_of_le_of_lt q.property (IdSet.size_erase_lt fresh))

/-- Follows edges in their order. An edge to a resource that was visited leads to a reference, and
closes a cycle if the resource is above. -/
def followAll (g : ResourceGraph) (s : Surroundings) (parent : Resource) :
    List Edge → (p : Progress) → Except Defect (List (Tree Entry) × p.Since)
  | [], p => return ([], ⟨p, Nat.le_refl _⟩)
  | e :: later, p => do
    if fresh : e.target ∈ p.unvisited then
      let (child, q) ← descend g s e p fresh
      let (children, last) ← followAll g s parent later q.val
      return (child :: children,
        ⟨last.val, Nat.le_of_lt (Nat.lt_of_le_of_lt last.property q.property)⟩)
    else
      let (r, node) ← reference g s.contexts e
      let closesCycle := s.ancestors.any (·.id == e.target)
      let (children, last) ← followAll g s parent later (p.refer parent r closesCycle)
      return (node :: children, last)
termination_by edges p => (p.unvisited.size, 1, edges.length)
decreasing_by
  · exact Prod.Lex.right _ (Prod.Lex.left _ _ Nat.zero_lt_one)
  · exact Prod.Lex.left _ _ q.property
  · exact Prod.Lex.right _ (Prod.Lex.right _ (Nat.lt_succ_self _))

/-- Places the first unvisited member of an open context, again and again. -/
def gather (g : ResourceGraph) (s : Surroundings) (opens : Option Context) (p : Progress) :
    Except Defect (List (Tree Entry) × p.Since) :=
  match leftover : nextMember? opens p.unvisited with
  | none => return ([], ⟨p, Nat.le_refl _⟩)
  | some id => do
    let e : Edge := { target := id, context := opens.map (·.id) }
    let (tree, q) ← descend g s e p (mem_of_nextMember? leftover)
    let (trees, last) ← gather g s opens q.val
    return (tree :: trees,
      ⟨last.val, Nat.le_of_lt (Nat.lt_of_le_of_lt last.property q.property)⟩)
termination_by (p.unvisited.size, 1, 0)
decreasing_by
  · exact Prod.Lex.right _ (Prod.Lex.left _ _ Nat.zero_lt_one)
  · exact Prod.Lex.left _ _ q.property

end

/-! ## The loop -/

variable {g : ResourceGraph} {s : Surroundings} {rootIri : String} {top parent : Frame}
  {above below rest : List Frame} {p q : Progress} {e : Edge} {later : List Edge}
  {t : Tree Entry} {id : ResourceId}

/-- Where the loop stands with open frames. -/
def surroundingsOf (frames : List Frame) : Surroundings where
  ancestors := pathOf frames
  contexts := openContexts frames

/-- What becomes of a node that is done: it is the result, or a child of the frame below. -/
def resume (g : ResourceGraph) (rootIri : String) (t : Tree Entry) (p : Progress) :
    List Frame → Except Defect (Tree Entry × Progress)
  | [] => .ok (t, p)
  | parent :: rest => run g rootIri ⟨parent.add t :: rest, p⟩

/-- The frame after all of its edges were followed. -/
def Frame.followed (f : Frame) (children : List (Tree Entry)) : Frame :=
  { f with pending := [], done := children.reverse ++ f.done }

/-- Opening a resource, step by step. -/
theorem place_steps (g : ResourceGraph) (contexts : OpenContexts) (e : Edge) :
    place g contexts e = (do
      let r ← g.resource e.target
      let planned ← plan g contexts e r
      let pending ← schedule g (contexts.enter planned.opens) planned.edges
      return { resource := r, entry := planned.entry, opens := planned.opens,
               pending := pending }) := by
  unfold place
  cases g.resource e.target with
  | error d => rfl
  | ok r =>
    show _ = bind (plan g contexts e r) _
    dsimp only
    cases plan g contexts e r with
    | error d => rfl
    | ok planned =>
      show _ = bind (schedule g (contexts.enter planned.opens) planned.edges) _
      dsimp only
      cases schedule g (contexts.enter planned.opens) planned.edges <;> rfl

/-- The loop goes on from where a turn leads. -/
theorem run_eq (s : Stage) : run g rootIri s =
    match turn g rootIri s with
    | .error d => .error d
    | .ok (.finished tree p) => .ok (tree, p)
    | .ok (.next later) => run g rootIri later := by
  rw [run]
  split <;> simp only [*]

/-- A resource that was not visited is opened. -/
theorem run_fresh (hpending : top.pending = e :: later) (hfresh : e.target ∈ p.unvisited) :
    run g rootIri ⟨top :: below, p⟩ = (do
      let f ← place g (openContexts (top :: below)) e
      run g rootIri ⟨f :: top.leaving later :: below, p.visit e.target⟩) := by
  have hcontexts : openContexts (top.leaving later :: below) = openContexts (top :: below) := rfl
  rw [run_eq]
  simp only [turn, hpending, follow, if_pos hfresh, hcontexts]
  cases place g (openContexts (top :: below)) e <;> rfl

/-- A resource that was visited is referred to. -/
theorem run_visited (hpending : top.pending = e :: later) (hvisited : e.target ∉ p.unvisited) :
    run g rootIri ⟨top :: below, p⟩ = (do
      let (r, node) ← reference g (openContexts (top :: below)) e
      let closesCycle := (pathOf (top :: below)).any (·.id == e.target)
      run g rootIri
        ⟨(top.leaving later).add node :: below, p.refer top.resource r closesCycle⟩) := by
  have hcontexts : openContexts (top.leaving later :: below) = openContexts (top :: below) := rfl
  have hancestors : isOpen (top.leaving later :: below) e.target =
      (pathOf (top :: below)).any (·.id == e.target) := by
    simp [isOpen, pathOf, Frame.leaving, Function.comp_def]
  rw [run_eq]
  simp only [turn, hpending, follow, if_neg hvisited, hcontexts, hancestors]
  cases reference g (openContexts (top :: below)) e <;> rfl

theorem run_takeUp (hpending : top.pending = []) (hleftover : top.leftover? p.unvisited = some id) :
    run g rootIri ⟨top :: below, p⟩ = run g rootIri ⟨top.takeUp id :: below, p⟩ := by
  rw [run_eq]
  simp only [turn, hpending, hleftover]

theorem run_close (hpending : top.pending = []) (hleftover : top.leftover? p.unvisited = none) :
    run g rootIri ⟨top :: below, p⟩ = resume g rootIri top.close p below := by
  rw [run_eq]
  simp only [turn, hpending, hleftover]
  cases below <;> rfl

/-! ## The loop is the recursion -/

/-- Whether the loop places the target of an edge as the recursion does, whatever is open, as long
as no more than `size` resources are unvisited. -/
def Agrees (g : ResourceGraph) (rootIri : String) (size : Nat) : Prop :=
  ∀ above e p (fresh : e.target ∈ p.unvisited), p.unvisited.size ≤ size →
    (do let f ← place g (openContexts above) e
        run g rootIri ⟨f :: above, p.visit e.target⟩) =
      do let (t, q) ← descend g (surroundingsOf above) e p fresh
         resume g rootIri t q.val above

/-- The loop follows the edges of a frame as the search does. -/
theorem run_followAll {size : Nat} (h : Agrees g rootIri size) (edges : List Edge) (top : Frame)
    (below : List Frame) (p : Progress) (hp : p.unvisited.size ≤ size)
    (hpending : top.pending = edges) : run g rootIri ⟨top :: below, p⟩ = (do
      let (children, q) ← followAll g (surroundingsOf (top :: below)) top.resource edges p
      run g rootIri ⟨top.followed children :: below, q.val⟩) := by
  -- by induction on the edges: the frame collects what the list of children collects
  induction edges generalizing top p with
  | nil =>
    have hsame : top.followed [] = top := by
      cases top
      simp_all [Frame.followed]
    rw [followAll, pure_bind]
    exact congrArg (fun f => run g rootIri ⟨f :: below, p⟩) hsame.symm
  | cons e later ih =>
    rw [followAll]
    by_cases hfresh : e.target ∈ p.unvisited
    · have hplaced := h (top.leaving later :: below) e p hfresh hp
      rw [dif_pos hfresh, bind_assoc, run_fresh hpending hfresh]
      refine hplaced.trans (bind_congr ?_)
      rintro ⟨child, q, hfewer⟩
      have hothers := ih ((top.leaving later).add child) q
        (Nat.le_trans (Nat.le_of_lt hfewer) hp) rfl
      rw [bind_assoc]
      refine hothers.trans (bind_congr ?_)
      rintro ⟨children, last, _⟩
      simp [Frame.followed, Frame.add, Frame.leaving]
    · rw [dif_neg hfresh, bind_assoc, run_visited hpending hfresh]
      refine bind_congr ?_
      rintro ⟨r, node⟩
      have hothers := ih ((top.leaving later).add node) (p.refer top.resource r
        ((pathOf (top :: below)).any (·.id == e.target))) hp rfl
      rw [bind_assoc]
      refine hothers.trans (bind_congr ?_)
      rintro ⟨children, last, _⟩
      simp [Frame.followed, Frame.add, Frame.leaving]

theorem gather_none {opens : Option Context} (hnone : nextMember? opens p.unvisited = none) :
    gather g s opens p = .ok ([], ⟨p, Nat.le_refl _⟩) := by
  rw [gather]
  split
  · rfl
  · next hsome => rw [hnone] at hsome; cases hsome

theorem gather_some {opens : Option Context} (hleftover : nextMember? opens p.unvisited = some id) :
    gather g s opens p = (do
      let (tree, q) ← descend g s { target := id, context := opens.map (·.id) } p
        (mem_of_nextMember? hleftover)
      let (trees, last) ← gather g s opens q.val
      return (tree :: trees,
        ⟨last.val, Nat.le_of_lt (Nat.lt_of_le_of_lt last.property q.property)⟩)) := by
  rw [gather]
  split
  · next hnone => rw [hnone] at hleftover; cases hleftover
  · next other hfound =>
    rw [hfound] at hleftover
    cases hleftover
    rfl

/-- The loop takes up the members that are left as the search does, and closes the frame. -/
theorem run_gather {size : Nat} (h : Agrees g rootIri size) (top : Frame) (below : List Frame)
    (p : Progress) (hp : p.unvisited.size ≤ size) (hpending : top.pending = []) :
    run g rootIri ⟨top :: below, p⟩ = (do
      let (others, q) ← gather g (surroundingsOf (top :: below)) top.opens p
      let tree := .node top.entry (sortSiblings (top.done.reverse ++ others))
      resume g rootIri tree q.val below) := by
  -- the loop takes up the first leftover member and closes the frame when there is none
  cases hleftover : nextMember? top.opens p.unvisited with
  | none =>
    rw [gather_none hleftover, run_close hpending hleftover]
    show _ = resume g rootIri (.node top.entry (sortSiblings (top.done.reverse ++ []))) p below
    rw [List.append_nil]
    rfl
  | some id =>
    have hfresh := mem_of_nextMember? hleftover
    have hplaced := h (top :: below) { target := id, context := top.opens.map (·.id) } p hfresh hp
    have hpendingMember : (top.takeUp id).pending =
        { target := id, context := top.opens.map (·.id) } :: top.pending := rfl
    rw [gather_some hleftover, bind_assoc, run_takeUp hpending hleftover,
      run_fresh hpendingMember hfresh]
    refine hplaced.trans (bind_congr ?_)
    rintro ⟨tree, q, hfewer⟩
    have hothers := run_gather h (top.add tree) below q
      (Nat.le_trans (Nat.le_of_lt hfewer) hp) hpending
    rw [bind_assoc]
    refine hothers.trans (bind_congr ?_)
    rintro ⟨trees, last, _⟩
    simp [Frame.add]
termination_by p.unvisited.size

/-- The loop places every resource as the search does. -/
theorem agrees (g : ResourceGraph) (rootIri : String) (size : Nat) : Agrees g rootIri size := by
  induction size with
  | zero =>
    intro above e p hfresh hp
    have hvisited := IdSet.size_erase_lt hfresh
    omega
  | succ size ih =>
    intro above e p hfresh hp
    have hfewer : (p.visit e.target).unvisited.size ≤ size :=
      Nat.le_of_lt_succ (Nat.lt_of_lt_of_le (IdSet.size_erase_lt hfresh) hp)
    rw [descend, place_steps]
    simp only [bind_assoc, pure_bind]
    refine bind_congr fun r => bind_congr fun planned => ?_
    -- the contexts that are open below the resource are those of the frames with its own
    have hinside : ∀ f : Frame, f.resource = r → f.opens = planned.opens →
        surroundingsOf (f :: above) = (surroundingsOf above).enter r planned.opens := by
      rintro f rfl hopens
      rw [Surroundings.enter, ← hopens]
      rfl
    refine bind_congr fun edges => ?_
    let frame : Frame :=
      { resource := r, entry := planned.entry, opens := planned.opens, pending := edges }
    have hfollowed := run_followAll ih edges frame above (p.visit e.target) hfewer rfl
    refine hfollowed.trans ?_
    rw [hinside frame rfl rfl]
    refine bind_congr ?_
    rintro ⟨children, q, hsince⟩
    have hgathered := run_gather ih (frame.followed children) above q
      (Nat.le_trans hsince hfewer) rfl
    refine hgathered.trans ?_
    rw [hinside (frame.followed children) rfl rfl]
    refine bind_congr ?_
    rintro ⟨others, last, _⟩
    simp [Frame.followed, frame]

/-- What the traversal gives is what the search gives. -/
theorem grow_eq (g : ResourceGraph) (e : Edge) (p : Progress) (hfresh : e.target ∈ p.unvisited) :
    grow g e p = (do
      let (t, q) ← descend g {} e p hfresh
      return (t, q.val)) := by
  -- the IRI of the root is only for a defect that never occurs
  have hagree : ∀ rootIri, (place g (openContexts []) e >>= fun f =>
      run g rootIri ⟨[f], p.visit e.target⟩) =
      descend g {} e p hfresh >>= fun (t, q) => .ok (t, q.val) :=
    fun rootIri => agrees g rootIri _ [] e p hfresh (Nat.le_refl _)
  unfold grow
  cases hplaced : place g (openContexts []) e with
  | error d =>
    have hfailed := hagree ""
    rw [hplaced] at hfailed
    exact hfailed
  | ok frame =>
    have hran := hagree frame.entry.iri
    rw [hplaced] at hran
    exact hran

/-! ## What the search finds -/

variable {path : List Resource} {r : Resource} {T : List Resource → Edge → Tree Entry → Prop}

/-- Whether an edge can be followed at the end of a path: it leads to a resource, and concepts are
shown in the nearest context. -/
structure Followable (g : ResourceGraph) (path : List Resource) (e : Edge) : Prop where
  path_holds : ∀ q ∈ path, g.Holds q
  target_lt : e.target < g.size
  context_eq : e.context =
    if g.kindOf e.target = .concept then (nearestContext? path).map (·.id) else none

/-- All edges below a resource can be followed. -/
theorem edgesBelow_followable (h : Sound g) (hpath : ∀ q ∈ r :: path, g.Holds q)
    (he : e ∈ edgesBelow g path r) : Followable g (r :: path) e := by
  have hr := hpath r List.mem_cons_self
  refine ⟨hpath, edgesBelow_lt h hr he, ?_⟩
  by_cases hconcept : r.kind = .concept
  · rw [edgesBelow, hconcept] at he
    obtain ⟨id, hid, rfl⟩ := List.mem_map.1 he
    rw [if_pos (ResourceGraph.mem_narrowerIn h hr hid).2, nearestContext?_cons, hconcept]
    rfl
  · exact (edgesBelow_apt h hr (fun hkind => absurd hkind hconcept) he).context_eq

/-- Whether something succeeds, with a result of which `P` holds. -/
def Yields {α : Type} (x : Except Defect α) (P : α → Prop) : Prop :=
  ∃ a, x = .ok a ∧ P a

theorem Yields.bind {α β : Type} {x : Except Defect α} {f : α → Except Defect β} {P : α → Prop}
    {Q : β → Prop} (hx : Yields x P) (hf : ∀ a, P a → Yields (f a) Q) : Yields (x >>= f) Q := by
  obtain ⟨a, rfl, ha⟩ := hx
  exact hf a ha

/-- What has to be shown of a relation between edges at the ends of paths and trees, to hold of all
trees that the search finds. It holds of references, and of a node if it holds of its children,
which are what its edges lead to and the members that no edge leads to. -/
structure TreeRule (g : ResourceGraph) (T : List Resource → Edge → Tree Entry → Prop) : Prop where
  reference : ∀ path e r top, Followable g path e → g.Holds r → r.id = e.target →
    T path e
      (.leaf { view := r.view, reference := true, position := e.position, topConcept := top })
  owned : ∀ path e r edges children others, Followable g path e → g.Holds r → r.id = e.target →
    r.kind.isKnown = true →
    schedule g (g.contextsOn (r :: path)) (edgesBelow g path r) = .ok edges →
    List.Forall₂ (T (r :: path)) edges children →
    (∀ t ∈ others, ∃ c, g.contextOf? r = some c ∧ ∃ id ∈ c.members,
      (∀ e ∈ edges, e.target ≠ id) ∧ T (r :: path) { target := id, context := some c.id } t) →
    T path e (.node { view := r.view, position := e.position, topConcept := isTopOn path r.id }
      (sortSiblings (children ++ others)))

/-- What the search leads to from one progress: what is looked for is visited, and nothing becomes
unvisited. -/
structure Found (p : Progress) (targets : List ResourceId) (q : Progress) : Prop where
  visited : ∀ id ∈ targets, id ∉ q.unvisited
  fewer : ∀ id ∈ q.unvisited, id ∈ p.unvisited

theorem Found.trans {targets others : List ResourceId} {last : Progress} (h : Found p targets q)
    (hnext : Found q others last) : Found p (targets ++ others) last where
  visited := fun id hid hmem => by
    rcases List.mem_append.1 hid with hid | hid
    · exact h.visited id hid (hnext.fewer id hmem)
    · exact hnext.visited id hid hmem
  fewer := fun id hid => h.fewer id (hnext.fewer id hid)

/-- Whether the target of an edge is placed in a tree as it should be, as long as no more than
`size` resources are unvisited. -/
def Finds (g : ResourceGraph) (T : List Resource → Edge → Tree Entry → Prop) (size : Nat) : Prop :=
  ∀ path e p (fresh : e.target ∈ p.unvisited), p.unvisited.size ≤ size → Followable g path e →
    (∀ id ∈ p.unvisited, (g.kindOf id).isKnown = true) →
    Yields (descend g ⟨path, g.contextsOn path⟩ e p fresh) fun (t, q) =>
      T path e t ∧ Found p [e.target] q.val

/-- The edges of a resource lead to trees as they should be. -/
theorem followAll_finds {size : Nat} (ih : Finds g T size) (hrule : TreeRule g T)
    (h : Indexed g) (edges : List Edge) (hp : p.unvisited.size ≤ size)
    (htyped : ∀ id ∈ p.unvisited, (g.kindOf id).isKnown = true)
    (hedges : ∀ e ∈ edges, Followable g path e) :
    Yields (followAll g ⟨path, g.contextsOn path⟩ r edges p) fun (children, q) =>
      List.Forall₂ (T path) edges children ∧ Found p (edges.map (·.target)) q.val := by
  -- by induction on the edges; what is visited stays so on the way
  induction edges generalizing p with
  | nil =>
    rw [followAll]
    exact ⟨_, rfl, .nil, fun _ hid => absurd hid List.not_mem_nil, fun _ hid => hid⟩
  | cons e later hothers =>
    have hlaterOk := fun e he => hedges e (List.mem_cons_of_mem _ he)
    have hfirst := hedges e List.mem_cons_self
    rw [followAll]
    by_cases hfresh : e.target ∈ p.unvisited
    · rw [dif_pos hfresh]
      refine (ih path e p hfresh hp hfirst htyped).bind ?_
      rintro ⟨t, q, hsince⟩ ⟨htree, hfound⟩
      refine (hothers (Nat.le_trans (Nat.le_of_lt hsince) hp)
        (fun id hid => htyped id (hfound.fewer id hid)) hlaterOk).bind ?_
      rintro ⟨children, last, _⟩ ⟨htrees, hfoundOthers⟩
      exact ⟨_, rfl, .cons htree htrees, hfound.trans hfoundOthers⟩
    · rw [dif_neg hfresh]
      obtain ⟨s, hholds, htarget⟩ := ResourceGraph.exists_held h hfirst.target_lt
      have hreferred : Yields (reference g (g.contextsOn path) e) fun (_, t) => T path e t := by
        have hfound : g.resource e.target = .ok s := htarget ▸ ResourceGraph.resource_eq hholds
        rw [reference, hfound]
        exact ⟨_, rfl, hrule.reference path e s _ hfirst hholds htarget⟩
      refine hreferred.bind ?_
      rintro ⟨s', t⟩ htree
      refine (hothers (p := p.refer r s' (path.any (·.id == e.target))) hp htyped hlaterOk).bind ?_
      rintro ⟨children, last, _⟩ ⟨htrees, hfound⟩
      refine ⟨_, rfl, .cons htree htrees, fun id hid hmem => ?_, hfound.fewer⟩
      rcases List.mem_cons.1 hid with rfl | hid
      · exact hfresh (hfound.fewer _ hmem)
      · exact hfound.visited id hid hmem

/-- A member of a context can be taken up. -/
theorem followable_of_member {c : Context} (h : Sound g) (hpath : ∀ q ∈ r :: path, g.Holds q)
    (hopens : g.contextOf? r = some c) (hid : id ∈ c.members) :
    Followable g (r :: path) { target := id, context := some c.id } := by
  have hr := hpath r List.mem_cons_self
  rw [ResourceGraph.contextOf?] at hopens
  split at hopens
  · next hgathers =>
    cases hopens
    obtain ⟨hmember, hconcept⟩ := ResourceGraph.mem_contextOf.1 hid
    refine ⟨hpath, ResourceGraph.declaredMember_lt h hr hmember, ?_⟩
    rw [if_pos hconcept, nearestContext?_cons, if_pos hgathers]
    rfl
  · cases hopens

/-- The members that a context takes up lead to trees as they should be. -/
theorem gather_finds {size : Nat} {p : Progress} (ih : Finds g T size) (h : Sound g)
    (hpath : ∀ q ∈ r :: path, g.Holds q) (hp : p.unvisited.size ≤ size)
    (htyped : ∀ id ∈ p.unvisited, (g.kindOf id).isKnown = true) :
    Yields (gather g ⟨r :: path, g.contextsOn (r :: path)⟩ (g.contextOf? r) p) fun (trees, q) =>
      (∀ t ∈ trees, ∃ c, g.contextOf? r = some c ∧ ∃ id ∈ c.members, id ∈ p.unvisited ∧
        T (r :: path) { target := id, context := some c.id } t) ∧ Found p [] q.val := by
  -- the first member that is left over, and then those that its tree leaves
  cases hleftover : nextMember? (g.contextOf? r) p.unvisited with
  | none =>
    rw [gather_none hleftover]
    exact ⟨_, rfl, fun t ht => absurd ht List.not_mem_nil,
      fun _ hid => absurd hid List.not_mem_nil, fun _ hid => hid⟩
  | some id =>
    obtain ⟨c, hopens, hfound⟩ := Option.bind_eq_some_iff.1 hleftover
    have hmember : id ∈ c.members := List.mem_of_find?_eq_some hfound
    have hfresh := mem_of_nextMember? hleftover
    rw [gather_some hleftover]
    have hedge : ({ target := id, context := (g.contextOf? r).map (·.id) } : Edge) =
        { target := id, context := some c.id } := by rw [hopens]; rfl
    refine (ih (r :: path) _ p hfresh hp (hedge ▸ followable_of_member h hpath hopens hmember)
      htyped).bind ?_
    rintro ⟨tree, q, hsince⟩ ⟨hfirst, hfoundFirst⟩
    refine (gather_finds ih h hpath (Nat.le_trans (Nat.le_of_lt hsince) hp)
      (fun id hid => htyped id (hfoundFirst.fewer id hid))).bind ?_
    rintro ⟨trees, last, _⟩ ⟨hothers, hfoundOthers⟩
    refine ⟨_, rfl, fun t ht => ?_, fun _ hid => absurd hid List.not_mem_nil,
      (hfoundFirst.trans hfoundOthers).fewer⟩
    rcases List.mem_cons.1 ht with rfl | ht
    · exact ⟨c, hopens, id, hmember, hfresh, hedge ▸ hfirst⟩
    · obtain ⟨c', hopens', other, hotherMember, hunvisited, hotherTree⟩ := hothers t ht
      exact ⟨c', hopens', other, hotherMember, hfoundFirst.fewer _ hunvisited, hotherTree⟩
termination_by p.unvisited.size

/-- In a sound graph the search never fails, and all trees that it finds are as they should be. -/
theorem TreeRule.finds (hrule : TreeRule g T) (h : Sound g) (size : Nat) : Finds g T size := by
  induction size with
  | zero =>
    intro path e p hfresh hp
    have hvisited := IdSet.size_erase_lt hfresh
    omega
  | succ size ih =>
    intro path e p hfresh hp hfollowable htyped
    have hvisited : (p.visit e.target).unvisited.size ≤ size :=
      Nat.le_of_lt_succ (Nat.lt_of_lt_of_le (IdSet.size_erase_lt hfresh) hp)
    have hstillTyped : ∀ id ∈ (p.visit e.target).unvisited, (g.kindOf id).isKnown = true :=
      fun id hid => htyped id (IdSet.mem_erase.1 hid).1
    obtain ⟨r, hholds, htarget⟩ := ResourceGraph.exists_held h.indexed hfollowable.target_lt
    have hknown : r.kind.isKnown = true := by
      rw [← hholds.kindOf, htarget]
      exact htyped e.target hfresh
    have honPath : ∀ q ∈ r :: path, g.Holds q :=
      List.forall_mem_cons.2 ⟨hholds, hfollowable.path_holds⟩
    have hfound : g.resource e.target = .ok r := htarget ▸ ResourceGraph.resource_eq hholds
    have hplanned := plan_ok h hfollowable.path_holds hholds hknown htarget.symm
      hfollowable.context_eq
    obtain ⟨edges, hscheduled, hperm⟩ :=
      schedule_ok (g.contextsOn (r :: path)) fun e he => edgesBelow_lt h hholds he
    have hedgesOk : ∀ e ∈ edges, Followable g (r :: path) e := fun e he =>
      edgesBelow_followable h honPath (hperm.mem_iff.1 he)
    have hinside : Surroundings.enter ⟨path, g.contextsOn path⟩ r (g.contextOf? r) =
        ⟨r :: path, g.contextsOn (r :: path)⟩ := rfl
    rw [descend, hfound]
    show Yields (plan g (g.contextsOn path) e r >>= _) _
    rw [hplanned]
    show Yields (schedule g (Surroundings.enter _ r (g.contextOf? r)).contexts _ >>= _) _
    rw [hinside, hscheduled]
    refine (followAll_finds ih hrule h.indexed edges hvisited hstillTyped hedgesOk).bind ?_
    rintro ⟨children, q, hsince⟩ ⟨htrees, hfoundTargets⟩
    refine (gather_finds ih h honPath (Nat.le_trans hsince hvisited) fun id hid =>
      hstillTyped id (hfoundTargets.fewer id hid)).bind ?_
    rintro ⟨others, last, _⟩ ⟨htakenUp, hfoundOthers⟩
    have hall := hfoundTargets.trans hfoundOthers
    have hfewer : ∀ id ∈ last.unvisited, id ∈ p.unvisited ∧ id ≠ e.target := fun id hid =>
      IdSet.mem_erase.1 (hall.fewer id hid)
    refine ⟨_, rfl, ?_, fun id hid hmem => ?_, fun id hid => (hfewer id hid).1⟩
    · refine hrule.owned path e r edges children others hfollowable hholds htarget hknown hscheduled
        htrees fun t ht => ?_
      obtain ⟨c, hopens, id, hmember, hunvisited, htree⟩ := htakenUp t ht
      -- what an edge leads to is visited before anything is taken up
      exact ⟨c, hopens, id, hmember, fun e he hsame =>
        hfoundTargets.visited id (hsame ▸ List.mem_map_of_mem he) hunvisited, htree⟩
    · rw [List.mem_singleton.1 hid] at hmem
      exact (hfewer _ hmem).2 rfl

/-- At the top every resource of known kind can be looked for. -/
theorem followable_top (hknown : (g.kindOf id).isKnown = true) :
    Followable g [] { target := id } := by
  refine ⟨fun q hq => absurd hq List.not_mem_nil, ResourceGraph.lt_size_of_isKnown hknown, ?_⟩
  show (none : Option ResourceId) = _
  split <;> rfl

/-- The trees that are grown are as they should be. -/
theorem TreeRule.grow (hrule : TreeRule g T) (h : Sound g)
    (htyped : ∀ id ∈ p.unvisited, (g.kindOf id).isKnown = true) (hfresh : id ∈ p.unvisited) :
    Yields (descend g {} { target := id } p hfresh) fun (t, q) =>
      Traversal.grow g { target := id } p = .ok (t, q.val) ∧ T [] { target := id } t := by
  obtain ⟨⟨t, q⟩, hfound, htree, _⟩ := hrule.finds h _ [] { target := id } p hfresh (Nat.le_refl _)
    (followable_top (htyped id hfresh)) htyped
  have hsearched : descend g {} { target := id } p hfresh = .ok (t, q) := hfound
  refine ⟨(t, q), hsearched, ?_, htree⟩
  rw [grow_eq g { target := id } p hfresh, hsearched]
  rfl

/-- All trees of the forest are as they should be. -/
theorem Phases.follows (ph : Phases g) (hrule : TreeRule g T) (h : Sound g) :
    ∀ t ∈ ph.trees, ∃ id, T [] { target := id } t := by
  refine ph.rule (J := fun trees _ => ∀ t ∈ trees, ∃ id, T [] { target := id } t) h
    (fun t ht => absurd ht List.not_mem_nil) ?_
  intro id done p tree later hvalid _ hfresh hbefore hgrown t ht
  rcases List.mem_append.1 ht with ht | ht
  · exact hbefore t ht
  · obtain ⟨⟨tree', q⟩, _, hgrown', hfound⟩ := hrule.grow h hvalid.typed hfresh
    rw [hgrown] at hgrown'
    cases hgrown'
    exact ⟨id, List.mem_singleton.1 ht ▸ hfound⟩

/-! ## The order of the search -/

/-- Edges are followed in the order of their keys. -/
theorem schedule_ascending {contexts : OpenContexts} {edges pending : List Edge}
    (h : schedule g contexts edges = .ok pending) : pending.Perm edges ∧
      pending.Pairwise fun a b => (absentLast SiblingKey.compare (edgeKey g contexts a)
        (edgeKey g contexts b)).isLE = true := by
  unfold schedule at h
  split at h
  · cases h
  · cases h
    exact ⟨(sortOn_perm ..).trans (List.reverse_perm edges), sortOn_pairwise _⟩

/-- The member that is found is the least one that is left. -/
theorem least_of_nextMember? {c : Context} {u : IdSet} (h : nextMember? (some c) u = some id) :
    (id ∈ c.members ∧ id ∈ u) ∧ ∀ other ∈ c.members, other ∈ u → id ≤ other := by
  have hfound : c.members.toList.find? (· ∈ u) = some id := h
  have hascending := c.members.ascending
  refine ⟨⟨List.mem_of_find?_eq_some hfound, mem_of_nextMember? h⟩,
    fun other hmember hunvisited => ?_⟩
  obtain ⟨_, before, after, hsplit, hnone⟩ := List.find?_eq_some_iff_append.1 hfound
  rw [IdSet.mem_def, hsplit] at hmember
  rw [hsplit] at hascending
  -- what is listed before was visited, and what is listed after is larger
  rcases List.mem_append.1 hmember with hmem | hmem
  · exact absurd hunvisited (by simpa using hnone other hmem)
  · rcases List.mem_cons.1 hmem with rfl | hmem
    · exact Nat.le_refl _
    · have habove := (List.pairwise_cons.1 (List.pairwise_append.1 hascending).2.1).1
      exact Nat.le_of_lt (habove other hmem)

/-- A context takes up the least member that is left. -/
theorem nextMember?_eq_some {c : Context} {u : IdSet} : nextMember? (some c) u = some id ↔
    (id ∈ c.members ∧ id ∈ u) ∧ ∀ other ∈ c.members, other ∈ u → id ≤ other := by
  refine ⟨least_of_nextMember?, fun ⟨⟨hmember, hunvisited⟩, hleast⟩ => ?_⟩
  cases hfound : nextMember? (some c) u with
  | none => exact absurd hunvisited (by simpa using List.find?_eq_none.1 hfound id hmember)
  | some first =>
    obtain ⟨⟨hfirstMember, hfirstLeft⟩, hfirstLeast⟩ := least_of_nextMember? hfound
    have hsame : first = id :=
      Nat.le_antisymm (hfirstLeast id hmember hunvisited) (hleast first hfirstMember hfirstLeft)
    rw [hsame]

end Traversal

open Traversal

/-- The traversal is the recursive search. In every reachable graph, growing a tree from a resource
that is not visited gives what the search gives: the same tree, issues and flags, and the same
resources left unvisited. It gives them whenever all that is unvisited has a kind. The search
follows edges in the ascending order of their keys, and takes up the least member of a context that
is left. -/
theorem grow_recursive (g : ResourceGraph) (hreach : Reachable g) (p : Progress) (id : ResourceId)
    (fresh : id ∈ p.unvisited) :
    (grow g { target := id } p = do
      let (t, q) ← descend g {} { target := id } p fresh
      return (t, q.val)) ∧
    ((∀ id ∈ p.unvisited, (g.kindOf id).isKnown = true) →
      ∃ t q, descend g {} { target := id } p fresh = .ok (t, q) ∧
        grow g { target := id } p = .ok (t, q.val)) ∧
    (∀ contexts edges pending, schedule g contexts edges = .ok pending →
      pending.Perm edges ∧ pending.Pairwise fun a b =>
        (absentLast SiblingKey.compare (edgeKey g contexts a) (edgeKey g contexts b)).isLE) ∧
    ∀ c u member, nextMember? (some c) u = some member ↔
      (member ∈ c.members ∧ member ∈ u) ∧ ∀ other ∈ c.members, other ∈ u → member ≤ other := by
  have hrecursive := grow_eq g { target := id } p fresh
  refine ⟨hrecursive, fun htyped => ?_, fun _ _ _ hscheduled => schedule_ascending hscheduled,
    fun _ _ _ => nextMember?_eq_some⟩
  have halways : TreeRule g fun _ _ _ => True :=
    ⟨fun _ _ _ _ _ _ _ => trivial, fun _ _ _ _ _ _ _ _ _ _ _ _ _ => trivial⟩
  obtain ⟨⟨t, q⟩, hfound, hgrown, _⟩ := halways.grow hreach.sound htyped fresh
  exact ⟨t, q, hfound, hgrown⟩

theorem grow_recursive_mutual : Reachable mutualHierarchy ∧
    ∃ (fresh : 0 ∈ typedIds mutualHierarchy) (t : Tree Entry) (q : Progress.Beyond _),
      descend mutualHierarchy {} { target := 0 } { unvisited := typedIds mutualHierarchy } fresh =
        .ok (t, q) ∧
      grow mutualHierarchy { target := 0 } { unvisited := typedIds mutualHierarchy } =
        .ok (t, q.val) := by
  have htyped : ∀ id ∈ typedIds mutualHierarchy, (mutualHierarchy.kindOf id).isKnown = true :=
    fun id hid => (IdSet.mem_filter.1 hid).2
  have fresh : 0 ∈ typedIds mutualHierarchy := by decide
  exact ⟨mutualHierarchy_reachable, fresh, (grow_recursive mutualHierarchy
    mutualHierarchy_reachable { unvisited := typedIds mutualHierarchy } 0 fresh).2.1 htyped⟩

end Thesaurus
