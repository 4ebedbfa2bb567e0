import Mathlib.Logic.Relation
import Thesaurus.Proofs.Forest.Renaming

/-!
# Closing a frame

The loop that places a resource keeps its open frames on a list. What happens to one frame, from the
turn in which it is innermost until it is closed, does not depend on those below it: it is a
relation that follows the shape of the tree.

- `Closes`: which tree a frame is closed as, and what is visited by then.
- `run_closes`: the loop closes its frames, the innermost first.
- `Closes.of_fresh` and so on: the next edge and the leftover members say what a frame does next.
- `Closes.visited`: where all edges lead to what is visited, all children are references.
- `Closes.settled`: leftover members that lead to no others are taken up one after the other.
-/

namespace Thesaurus

namespace Traversal

open Relation (ReflTransGen)

/-! ## The relation -/

/-- Which tree a frame at the end of a path is closed as, and what is unvisited before and after. An
edge leads to a resource that is opened and closed again, or to one that was visited before; where
no edge is left, a context takes up a member that no edge led to, or the frame is closed. Leftover
members are taken up only where `P` allows it. -/
inductive Closes (g : ResourceGraph) (P : List Resource → Frame → IdSet → Prop) :
    List Resource → Frame → IdSet → Tree Entry → IdSet → Prop where
  | opened {path : List Resource} {f : Frame} {e : Edge} {later : List Edge} {r : Resource}
      {u v w : IdSet} {t tree : Tree Entry} (pending : f.pending = e :: later)
      (fresh : e.target ∈ u) (holds : g.Holds r) (target : e.target = r.id)
      (child : Closes g P (f.resource :: path) (openedFrame g (f.resource :: path) e r)
        (u.erase e.target) t v)
      (rest : Closes g P path ((f.leaving later).add t) v tree w) : Closes g P path f u tree w
  | referred {path : List Resource} {f : Frame} {e : Edge} {later : List Edge} {r : Resource}
      {u w : IdSet} {tree : Tree Entry} (pending : f.pending = e :: later) (visited : e.target ∉ u)
      (holds : g.Holds r) (target : e.target = r.id)
      (rest : Closes g P path ((f.leaving later).add (referenceTo (f.resource :: path) e r)) u
        tree w) : Closes g P path f u tree w
  | tookUp {path : List Resource} {f : Frame} {id : ResourceId} {u w : IdSet} {tree : Tree Entry}
      (pending : f.pending = []) (leftover : f.leftover? u = some id) (allowed : P path f u)
      (rest : Closes g P path (f.takeUp id) u tree w) : Closes g P path f u tree w
  | closed {path : List Resource} {f : Frame} {u : IdSet} (pending : f.pending = [])
      (leftover : f.leftover? u = none) : Closes g P path f u f.close u

/-- What becomes of the frames below one that is closed: each gets a child and is closed itself. -/
def Unwinds (g : ResourceGraph) (P : List Resource → Frame → IdSet → Prop) :
    List Frame → Tree Entry → IdSet → Tree Entry → IdSet → Prop
  | [], t, u, tree, w => t = tree ∧ u = w
  | parent :: below, t, u, tree, w =>
    ∃ t' v, Closes g P (pathOf below) (parent.add t) u t' v ∧ Unwinds g P below t' v tree w

variable {g : ResourceGraph} {P : List Resource → Frame → IdSet → Prop} {path : List Resource}
  {f : Frame} {u v w : IdSet} {t tree : Tree Entry} {p : Progress} {s : Stage} {rootIri : String}
  {e : Edge} {later : List Edge} {r : Resource} {id : ResourceId} {rest : List ResourceId}

/-! ## What the loop does -/

/-- A turn that follows an edge to an unvisited resource opens its frame. -/
theorem turn_opened (rootIri : String) (h : Sound g) {top : Frame} {below : List Frame}
    (hs : Stage.Valid g ⟨top :: below, p⟩) (hpending : top.pending = e :: later)
    (hfresh : e.target ∈ p.unvisited) : ∃ r, g.Holds r ∧ e.target = r.id ∧
      turn g rootIri ⟨top :: below, p⟩ = .ok (.next
        ⟨openedFrame g (pathOf (top :: below)) e r :: top.leaving later :: below,
          p.visit e.target⟩) := by
  obtain ⟨hseated, _⟩ := hs.seated
  have hapt := hseated.pending_apt e (hpending ▸ List.mem_cons_self)
  obtain ⟨r, hholds, htarget⟩ := ResourceGraph.exists_held h.indexed hapt.target_lt
  have hknown : r.kind.isKnown = true := by
    rw [← hholds.kindOf, htarget]
    exact hs.typed e.target hfresh
  have hcontexts : openContexts (top.leaving later :: below) =
      g.contextsOn (pathOf (top :: below)) := hs.seated.openContexts_eq
  have hplaced : place g (g.contextsOn (pathOf (top :: below))) e = _ :=
    place_eq h hs.seated.holds hholds hknown hapt htarget.symm
  refine ⟨r, hholds, htarget.symm, ?_⟩
  simp only [turn, hpending, follow, if_pos hfresh, hcontexts, hplaced]

/-- The loop closes the innermost frame, and then those below it. -/
theorem run_closes (h : Sound g) (hs : s.Valid g)
    (hallowed : ∀ top below q, ReflTransGen (fun s next => turn g rootIri s = .ok (.next next)) s
      ⟨top :: below, q⟩ → top.pending = [] → P (pathOf below) top q.unvisited)
    (hran : run g rootIri s = .ok (tree, p)) {top : Frame} {below : List Frame}
    (hframes : s.frames = top :: below) : ∃ t v,
      Closes g P (pathOf below) top s.progress.unvisited t v ∧
        Unwinds g P below t v tree p.unvisited := by
  -- by induction on the turns: what the frames do after a turn is preceded by the turn itself
  fun_induction run g rootIri s generalizing top below with
  | case1 s d hfailed => cases hran
  | case2 s tree' p' hfinished =>
    cases hran
    obtain ⟨_, hturned, hsteps⟩ := turn_steps rootIri h hs
    rw [hfinished] at hturned
    cases hturned
    cases hsteps with
    | finished hpending hleftover =>
      cases hframes
      exact ⟨_, _, .closed hpending hleftover, rfl, rfl⟩
  | case3 s later hturned ih =>
    obtain ⟨_, hturned', hsteps⟩ := turn_steps rootIri h hs
    rw [hturned] at hturned'
    cases hturned'
    have hallowedLater := fun top below q hreached => hallowed top below q (.head hturned hreached)
    have hafter := @ih (hsteps.valid h hs) hallowedLater hran
    cases hsteps with
    | @opened top frame below p e rest hpending hfresh hopened =>
      cases hframes
      obtain ⟨r, hholds, htarget, hturned'⟩ := turn_opened _ h hs hpending hfresh
      rw [hturned] at hturned'
      cases hturned'
      obtain ⟨t, v, hchild, t', v', hcloses, hunwinds⟩ := hafter rfl
      exact ⟨t', v', .opened hpending hfresh hholds htarget hchild hcloses, hunwinds⟩
    | referred hpending hvisited hholds htarget =>
      cases hframes
      obtain ⟨t, v, hcloses, hunwinds⟩ := hafter rfl
      exact ⟨t, v, .referred hpending hvisited hholds htarget hcloses, hunwinds⟩
    | @tookUp top below p id hpending hleftover =>
      cases hframes
      obtain ⟨t, v, hcloses, hunwinds⟩ := hafter rfl
      exact ⟨t, v, .tookUp hpending hleftover (hallowed top below p .refl hpending) hcloses,
        hunwinds⟩
    | closed hpending hleftover =>
      cases hframes
      obtain ⟨t, v, hcloses, hunwinds⟩ := hafter rfl
      exact ⟨_, _, .closed hpending hleftover, t, v, hcloses, hunwinds⟩

/-! ## What a closed frame leaves -/

/-- Nothing becomes unvisited while a frame is closed. -/
theorem Closes.fewer (hcloses : Closes g P path f u tree w) : ∀ id ∈ w, id ∈ u := by
  induction hcloses with
  | opened hpending hfresh hholds htarget hchild hrest ihChild ihRest =>
    exact fun id hid => (IdSet.mem_erase.1 (ihChild id (ihRest id hid))).1
  | referred hpending hvisited hholds htarget hrest ih => exact ih
  | tookUp hpending hleftover hallowed hrest ih => exact ih
  | closed => exact fun _ hid => hid

/-- A frame is closed as a node with its own entry. -/
theorem Closes.value_eq (hcloses : Closes g P path f u tree w) : tree.value = f.entry := by
  induction hcloses with
  | opened hpending hfresh hholds htarget hchild hrest ihChild ihRest => exact ihRest
  | referred hpending hvisited hholds htarget hrest ih => exact ih
  | tookUp hpending hleftover hallowed hrest ih => exact ih
  | closed => rfl

/-! ## What a frame does next -/

/-- The members of the context of a frame that are not visited. -/
def Frame.leftovers (f : Frame) (u : IdSet) : List ResourceId :=
  (f.opens.elim [] (·.members.toList)).filter (· ∈ u)

/-- The edge to a leftover member. -/
def Frame.edgeTo (f : Frame) (id : ResourceId) : Edge where
  target := id
  context := f.opens.map (·.id)

theorem Frame.leftover?_eq : f.leftover? u = (f.leftovers u).head? := by
  unfold Frame.leftover? Frame.leftovers
  rw [List.head?_filter]
  cases f.opens <;> rfl

/-- The next edge leads to a resource that is not visited, whose tree becomes a child. -/
theorem Closes.of_fresh (hcloses : Closes g P path f u tree w) (hpending : f.pending = e :: later)
    (hfresh : e.target ∈ u) : ∃ r t v, g.Holds r ∧ e.target = r.id ∧
      Closes g P (f.resource :: path) (openedFrame g (f.resource :: path) e r)
        (u.erase e.target) t v ∧
      Closes g P path ((f.leaving later).add t) v tree w := by
  cases hcloses with
  | opened hpending' _ hholds htarget hchild hrest =>
    rw [hpending] at hpending'
    cases hpending'
    exact ⟨_, _, _, hholds, htarget, hchild, hrest⟩
  | referred hpending' hvisited =>
    rw [hpending] at hpending'
    cases hpending'
    exact absurd hfresh hvisited
  | tookUp hpending' => rw [hpending] at hpending'; cases hpending'
  | closed hpending' => rw [hpending] at hpending'; cases hpending'

/-- The next edge leads to a resource that is visited, and a reference to it becomes a child. -/
theorem Closes.of_visited (hcloses : Closes g P path f u tree w)
    (hpending : f.pending = e :: later) (hvisited : e.target ∉ u) :
    ∃ r, g.Holds r ∧ e.target = r.id ∧
      Closes g P path ((f.leaving later).add (referenceTo (f.resource :: path) e r)) u tree w := by
  cases hcloses with
  | opened hpending' hfresh =>
    rw [hpending] at hpending'
    cases hpending'
    exact absurd hfresh hvisited
  | referred hpending' _ hholds htarget hrest =>
    rw [hpending] at hpending'
    cases hpending'
    exact ⟨_, hholds, htarget, hrest⟩
  | tookUp hpending' => rw [hpending] at hpending'; cases hpending'
  | closed hpending' => rw [hpending] at hpending'; cases hpending'

/-- Without edges, the first leftover member is taken up. -/
theorem Closes.of_leftover (hcloses : Closes g P path f u tree w) (hpending : f.pending = [])
    (hleft : f.leftovers u = id :: rest) : Closes g P path (f.takeUp id) u tree w := by
  cases hcloses with
  | opened hpending' => rw [hpending] at hpending'; cases hpending'
  | referred hpending' => rw [hpending] at hpending'; cases hpending'
  | tookUp _ hleftover _ htaken =>
    rw [Frame.leftover?_eq, hleft] at hleftover
    cases hleftover
    exact htaken
  | closed _ hleftover =>
    rw [Frame.leftover?_eq, hleft] at hleftover
    cases hleftover

/-- Without edges and leftover members, the frame is closed. -/
theorem Closes.of_nothing (hcloses : Closes g P path f u tree w) (hpending : f.pending = [])
    (hleft : f.leftovers u = []) : tree = f.close ∧ w = u := by
  cases hcloses with
  | opened hpending' => rw [hpending] at hpending'; cases hpending'
  | referred hpending' => rw [hpending] at hpending'; cases hpending'
  | tookUp _ hleftover =>
    rw [Frame.leftover?_eq, hleft] at hleftover
    cases hleftover
  | closed => exact ⟨rfl, rfl⟩

/-! ## Frames without unvisited edges -/

/-- The reference that an edge at the end of a path leads to. -/
def referenceAt (g : ResourceGraph) (path : List Resource) (e : Edge) : Tree Entry :=
  .leaf
    { view := g.viewOf e.target
      reference := true
      position := e.position
      topConcept := isTopOn path e.target }

theorem referenceTo_eq (hr : g.Holds r) (htarget : e.target = r.id) :
    referenceTo path e r = referenceAt g path e := by
  rw [referenceTo, referenceAt, htarget, hr.viewOf]

/-- The tree that a frame is closed as if nothing below it is opened any more. -/
def stub (g : ResourceGraph) (path : List Resource) (f : Frame) : Tree Entry :=
  .node f.entry
    (sortSiblings (f.done.reverse ++ f.pending.map (referenceAt g (f.resource :: path))))

/-- Where all edges lead to what is visited, all children are references. -/
theorem Closes.visited (hcloses : Closes g P path f u tree w)
    (hpending : ∀ e ∈ f.pending, e.target ∉ u) (hleft : f.leftovers u = []) :
    tree = stub g path f ∧ w = u := by
  induction hcloses with
  | opened hpending' hfresh =>
    exact absurd hfresh (hpending _ (hpending' ▸ List.mem_cons_self))
  | @referred path f e later r u w tree hpending' hvisited hholds htarget hrest ih =>
    obtain ⟨rfl, rfl⟩ := ih (fun e' he' => hpending e' (hpending' ▸ List.mem_cons_of_mem _ he'))
      hleft
    refine ⟨?_, rfl⟩
    rw [referenceTo_eq hholds htarget]
    simp [stub, hpending', Frame.add, Frame.leaving]
  | tookUp hpending' hleftover =>
    rw [Frame.leftover?_eq, hleft] at hleftover
    cases hleftover
  | closed hpending' hleftover =>
    refine ⟨?_, rfl⟩
    simp [stub, hpending', Frame.close]

/-- Whether nothing unvisited is below a resource at the end of a path: neither behind an edge nor
among its members. -/
structure IsInert (g : ResourceGraph) (path : List Resource) (u : IdSet) (r : Resource) : Prop where
  visited : ∀ e ∈ edgesBelow g path r, e.target ∉ u
  complete : ∀ c ∈ g.contextOf? r, ∀ id ∈ c.members, id ∉ u

theorem IsInert.fewer (h : IsInert g path u r) (hfewer : ∀ id ∈ v, id ∈ u) :
    IsInert g path v r where
  visited := fun e he hmem => h.visited e he (hfewer _ hmem)
  complete := fun c hc id hid hmem => h.complete c hc id hid (hfewer _ hmem)

/-- The tree that a resource without anything unvisited below it is shown as. -/
def inertTree (g : ResourceGraph) (path : List Resource) (e : Edge) : Tree Entry :=
  stub g path (openedFrame g path e (g.resources[e.target]?.getD default))

/-- All edges below a resource are planned. -/
theorem plannedEdges_perm : (plannedEdges g path r).Perm (edgesBelow g path r) :=
  (sortOn_perm ..).trans (List.reverse_perm _)

theorem mem_plannedEdges : e ∈ plannedEdges g path r ↔ e ∈ edgesBelow g path r :=
  plannedEdges_perm.mem_iff

/-- No two planned edges lead to the same resource. -/
theorem plannedEdges_nodup (horders : g.OrdersExact) (hr : g.Holds r) :
    ((plannedEdges g path r).map (·.target)).Nodup :=
  (plannedEdges_perm.map (·.target)).nodup_iff.2 (edgesBelow_nodup horders hr)

theorem Closes.inert (hcloses : Closes g P path (openedFrame g path e r) u tree w)
    (hr : g.Holds r) (htarget : e.target = r.id) (hinert : IsInert g path u r) :
    tree = inertTree g path e ∧ w = u := by
  have hleft : (openedFrame g path e r).leftovers u = [] := by
    refine List.filter_eq_nil_iff.2 fun id hid => ?_
    have hcomplete := hinert.complete
    unfold openedFrame at hid
    cases hopens : g.contextOf? r with
    | none =>
      rw [hopens] at hid
      cases hid
    | some c =>
      rw [hopens] at hid
      simpa using hcomplete c hopens id hid
  have hfound : g.resources[e.target]?.getD default = r := by
    rw [htarget, hr]
    rfl
  rw [inertTree, hfound]
  exact hcloses.visited (fun e' he' => hinert.visited e' (mem_plannedEdges.1 he')) hleft

/-! ## Leftover members -/

/-- Once a leftover member is visited, the others are left. -/
theorem Frame.leftovers_erase (h : f.leftovers u = id :: rest) :
    f.leftovers (u.erase id) = rest := by
  have hnodup : (f.leftovers u).Nodup := by
    unfold Frame.leftovers
    cases f.opens with
    | none => exact List.nodup_nil
    | some c => exact c.members.nodup.filter _
  have hsplit : f.leftovers (u.erase id) = (f.leftovers u).filter (· != id) := by
    unfold Frame.leftovers
    rw [List.filter_filter]
    refine List.filter_congr fun other _ => ?_
    rw [Bool.eq_iff_iff]
    simp [and_comm]
  rw [hsplit, ← hnodup.erase_eq_filter, h, List.erase_cons_head]

/-- Leftover members below which nothing is unvisited are taken up one after the other. -/
theorem Closes.settled (hcloses : Closes g P path f u tree w) (hpending : f.pending = [])
    (hinert : ∀ r, g.Holds r → r.id ∈ f.leftovers u → IsInert g (f.resource :: path) u r) :
    tree = .node f.entry (sortSiblings (f.done.reverse ++
      (f.leftovers u).map fun id => inertTree g (f.resource :: path) (f.edgeTo id))) ∧
    ∀ id, id ∈ w ↔ id ∈ u ∧ id ∉ f.leftovers u := by
  -- by induction on the leftover members, of which the first is taken up
  induction hleft : f.leftovers u generalizing f u with
  | nil =>
    obtain ⟨rfl, rfl⟩ := hcloses.of_nothing hpending hleft
    simp [Frame.close]
  | cons id rest ih =>
    have hunvisited : id ∈ u := by
      have hmem : id ∈ f.leftovers u := hleft ▸ List.mem_cons_self
      simpa using (List.mem_filter.1 hmem).2
    have hfewer : ∀ other ∈ u.erase id, other ∈ u := fun other hmem => (IdSet.mem_erase.1 hmem).1
    obtain ⟨r, t, v, hholds, htarget, hchild, hothers⟩ :=
      (hcloses.of_leftover hpending hleft).of_fresh (e := f.edgeTo id) rfl hunvisited
    have hinert' : IsInert g (f.resource :: path) u r :=
      hinert r hholds (htarget ▸ hleft ▸ List.mem_cons_self)
    obtain ⟨rfl, rfl⟩ := hchild.inert hholds htarget (hinert'.fewer hfewer)
    have hlater : f.leftovers (u.erase id) = rest := Frame.leftovers_erase hleft
    have hmember : ∀ other ∈ f.leftovers (u.erase id), other ∈ f.leftovers u := fun other hmem =>
      hleft ▸ List.mem_cons_of_mem _ (hlater ▸ hmem)
    obtain ⟨rfl, hdone⟩ := ih hothers hpending
      (fun q hq hmem => (hinert q hq (hmember q.id hmem)).fewer hfewer) hlater
    refine ⟨?_, fun other => ?_⟩
    · have hchildren : (((f.takeUp id).leaving f.pending).add (inertTree g (f.resource :: path)
          (f.edgeTo id))).done.reverse = f.done.reverse ++ [inertTree g (f.resource :: path)
            (f.edgeTo id)] := List.reverse_cons
      rw [List.map_cons, List.append_cons, ← hchildren]
      rfl
    · rw [hdone, List.mem_cons, not_or, ← and_assoc]
      exact and_congr_left' IdSet.mem_erase

end Traversal

end Thesaurus
