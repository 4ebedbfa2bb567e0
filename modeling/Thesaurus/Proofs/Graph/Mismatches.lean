import Thesaurus.Proofs.Graph.Counterparts
import Thesaurus.Proofs.Graph.Restriction

/-!
# Lists that disagree with the members

When a graph is finished, the list of every ordered collection is compared with its members. There
are many other issues, but none of them is about such a disagreement.

- `Issue.isMismatchOf`: disagreements for one collection.
- `IssueKind.isFinding`: what is found by comparing what was stated.
- `ResourceGraph.countP_resources`: issues that are about one resource.
- `ResourceGraph.issues_completed`: what finishing adds to the issues.
- `ResourceGraph.countP_mismatches`: a member list that disagrees with the members is one issue.
-/

namespace Thesaurus

open Rdf (Node)

/-- Whether an issue is that the member list of a collection disagrees with its members. -/
def Issue.isMismatchOf (k : Node) : Issue → Bool
  | .orderedMembersMismatch collection _ _ => collection == k
  | _ => false

/-- Whether issues of a kind are found by comparing what was stated when a graph is finished. -/
def IssueKind.isFinding : IssueKind → Bool
  | .orderedMembersMismatch | .wrongMemberKind | .topConceptHasBroader => true
  | _ => false

namespace ResourceGraph

variable {g : ResourceGraph} {i : ResourceId} {n k : Node}

/-- What reading the member list of a resource records. -/
def orderIssues (g : ResourceGraph) (r : Resource) : List Issue :=
  (g.memberOrder? r).elim [] (·.issues)

/-- Issues of other kinds are not counted. -/
theorem countP_other {issues : List Issue} (h : ∀ i ∈ issues, i.kind ≠ .orderedMembersMismatch) :
    issues.countP (Issue.isMismatchOf k) = 0 := by
  refine List.countP_eq_zero.2 fun i hi hcounted => h i hi ?_
  cases i <;> first | rfl | cases hcounted

theorem countP_others {f : Resource → List Issue} {resources : List Resource}
    (h : ∀ r, ∀ i ∈ f r, i.kind ≠ .orderedMembersMismatch) :
    (resources.flatMap f).countP (Issue.isMismatchOf k) = 0 := by
  refine countP_other fun i hi => ?_
  obtain ⟨r, _, hi⟩ := List.mem_flatMap.1 hi
  exact h r i hi

/-- Of all resources, just the one with a node adds to what is counted for that node. -/
theorem countP_resources {r : Resource} {f : Resource → List Issue} {p : Issue → Bool} (h : Sound g)
    (hr : g.resources[i]? = some r)
    (hother : ∀ s : Resource, s.node ≠ r.node → (f s).countP p = 0) :
    (g.resources.toList.flatMap f).countP p = (f r).countP p := by
  have hmem : r ∈ g.resources.toList := Array.mem_toList_iff.2 (Array.mem_of_getElem? hr)
  obtain ⟨before, after, hsplit⟩ := List.append_of_mem hmem
  have hnodup := h.indexed.nodup_nodes
  rw [hsplit, List.map_append, List.map_cons, List.nodup_append] at hnodup
  obtain ⟨_, hbehind, hapart⟩ := hnodup
  have hnone : ∀ l : List Resource, (∀ s ∈ l, s.node ≠ r.node) → (l.flatMap f).countP p = 0 := by
    intro l hl
    rw [List.countP_eq_zero]
    intro issue hmem
    obtain ⟨s, hs, hmem⟩ := List.mem_flatMap.1 hmem
    exact List.countP_eq_zero.1 (hother s (hl s hs)) issue hmem
  rw [hsplit, List.flatMap_append, List.flatMap_cons, List.countP_append, List.countP_append,
    hnone before, hnone after, Nat.zero_add, Nat.add_zero]
  · intro s hs hsame
    exact (List.nodup_cons.1 hbehind).1 (hsame ▸ List.mem_map_of_mem hs)
  · intro s hs hsame
    exact hapart _ (List.mem_map_of_mem hs) _ List.mem_cons_self hsame

/-- What is wrong with the cells of a list is no finding. -/
theorem kind_of_resolve {cells : CellStore} {owner head : Node} :
    ∀ i ∈ (cells.resolve owner head).issues, i.kind.isFinding = false := by
  intro i hi
  rcases List.mem_append.1 hi with hi | hi
  · obtain ⟨cell, _, hfound⟩ := List.mem_filterMap.1 hi
    unfold CellStore.elementIssue? at hfound
    split at hfound
    · split at hfound
      · cases hfound
        rfl
      · cases hfound
    · cases hfound
      rfl
  · rw [Option.mem_toList] at hi
    unfold CellStore.ChainEnd.issue? at hi
    split at hi <;> cases hi <;> rfl

theorem countP_resolve {cells : CellStore} {owner head : Node} :
    (cells.resolve owner head).issues.countP (Issue.isMismatchOf k) = 0 := by
  refine countP_other fun i hi hmismatch => ?_
  have hother := kind_of_resolve i hi
  rw [hmismatch] at hother
  cases hother

/-- Either an order is accepted, or a disagreement is recorded. -/
theorem declaredOrder_cases (g : ResourceGraph) (n : Node) (members : IdSet)
    (elements : List Node) :
    (∃ order, g.declaredOrder n members elements = ⟨some order, []⟩) ∨
      ∃ notMembers notListed, g.declaredOrder n members elements =
        ⟨none, [.orderedMembersMismatch n notMembers notListed]⟩ := by
  rw [declaredOrder]
  split
  · exact .inl ⟨_, rfl⟩
  · exact .inr ⟨_, _, rfl⟩

/-- A disagreement is recorded once, just where no order was accepted. -/
theorem countP_declaredOrder {members : IdSet} {elements : List Node} :
    (g.declaredOrder n members elements).issues.countP (Issue.isMismatchOf k) =
      if n = k ∧ (g.declaredOrder n members elements).order = none then 1 else 0 := by
  rcases declaredOrder_cases g n members elements with ⟨order, heq⟩ | ⟨_, _, heq⟩
  · simp [heq]
  · rw [heq]
    by_cases hsame : n = k <;> simp [Issue.isMismatchOf, hsame]

/-- No order is accepted just if the list disagrees with the members. -/
theorem declaredOrder_eq_none (h : Sound g) (hn : g.lookup n = some i) (elements : List Node) :
    (g.declaredOrder n (g.linksOf i).members elements).order = none ↔
      ¬ ∀ e, e ∈ elements ↔ g.Relates .members n e := by
  rw [Option.eq_none_iff_forall_not_mem, ← not_exists]
  simp only [Option.mem_def, declaredOrder_eq_some h hn, exists_and_left, exists_eq, and_true]

/-- Schemes in collections are other issues. -/
theorem kind_of_schemeMemberIssues {r : Resource} :
    ∀ i ∈ g.schemeMemberIssues r, i.kind = .wrongMemberKind := by
  intro i hi
  unfold schemeMemberIssues at hi
  split at hi
  · obtain ⟨n, _, rfl⟩ := List.mem_map.1 hi
    rfl
  · cases hi

/-- So are top concepts with broader concepts. -/
theorem kind_of_topConceptIssues {r : Resource} :
    ∀ i ∈ g.topConceptIssues r, i.kind = .topConceptHasBroader := by
  intro i hi
  unfold topConceptIssues at hi
  split at hi
  · obtain ⟨top, _, hfound⟩ := List.mem_filterMap.1 hi
    unfold topConceptIssue? at hfound
    split at hfound
    · cases hfound
    · split at hfound
      · cases hfound
      · cases hfound
        rfl
  · cases hi

/-- What finishing adds to the issues: first what is wrong with member lists, then schemes in
collections, and last the top concepts of the finished graph. -/
theorem issues_completed : g.completed.issues = g.issues ++
    (g.resources.toList.flatMap g.orderIssues ++
      g.readMemberLists.resources.toList.flatMap g.readMemberLists.schemeMemberIssues ++
      g.completed.resources.toList.flatMap g.completed.topConceptIssues) := by
  have hbefore : g.readMemberLists.dropSchemesFromCollections.freeze.issues = g.issues ++
      g.resources.toList.flatMap g.orderIssues ++
      g.readMemberLists.resources.toList.flatMap g.readMemberLists.schemeMemberIssues :=
    issues_freeze
  have hlast : g.completed.issues =
      g.readMemberLists.dropSchemesFromCollections.freeze.issues ++
        g.completed.resources.toList.flatMap g.completed.topConceptIssues := rfl
  rw [hlast, hbefore]
  simp only [List.append_assoc]

/-- When a graph is finished, only reading member lists can find that they disagree with members. -/
theorem countP_completed (hquiet : ∀ i ∈ g.issues, i.kind ≠ .orderedMembersMismatch) :
    g.completed.issues.countP (Issue.isMismatchOf k) =
      (g.resources.toList.flatMap g.orderIssues).countP (Issue.isMismatchOf k) := by
  have hnoMember : ∀ r, ∀ i ∈ g.readMemberLists.schemeMemberIssues r,
      i.kind ≠ .orderedMembersMismatch := by
    intro r i hi
    simp [kind_of_schemeMemberIssues i hi]
  have hnoTop : ∀ r, ∀ i ∈ g.completed.topConceptIssues r, i.kind ≠ .orderedMembersMismatch := by
    intro r i hi
    simp [kind_of_topConceptIssues i hi]
  rw [issues_completed, List.countP_append, List.countP_append, List.countP_append,
    countP_other hquiet, countP_others hnoMember, countP_others hnoTop, Nat.zero_add, Nat.add_zero]

/-- In a finished graph there is one issue with the list of an ordered collection that disagrees
with the members, and none if it agrees. -/
theorem countP_mismatches {head : Node} (h : Sound g)
    (hquiet : ∀ i ∈ g.issues, i.kind ≠ .orderedMembersMismatch)
    (hkind : g.kindAt k = .orderedCollection) (hhead : g.headAt k = some head)
    [Decidable (∀ e, e ∈ (g.cells.resolve k head).elements ↔ g.Relates .members k e)] :
    g.completed.issues.countP (Issue.isMismatchOf k) =
      if ∀ e, e ∈ (g.cells.resolve k head).elements ↔ g.Relates .members k e then 0 else 1 := by
  obtain ⟨i, hfound, hlisted⟩ := Option.bind_eq_some_iff.1 hhead
  obtain ⟨r, hr, rfl⟩ := lookup_eq_some h.indexed hfound
  rw [linksOf_eq hr] at hlisted
  have hordered : r.kind = .orderedCollection := by rwa [kindAt_eq hfound, kindOf_eq hr] at hkind
  -- all mismatches are found where the list of this collection is read
  rw [countP_completed hquiet, countP_resources h hr]
  · rw [orderIssues, memberOrder?, if_pos hordered, hlisted]
    simp only [Option.map_some, Option.elim_some]
    rw [List.countP_append, countP_resolve, countP_declaredOrder, Nat.zero_add]
    simp only [← linksOf_eq hr, declaredOrder_eq_none h hfound, true_and, ite_not]
  · intro s hother
    unfold orderIssues memberOrder?
    split
    · cases s.links.memberList with
      | none => rfl
      | some head =>
        simp only [Option.map_some, Option.elim_some]
        rw [List.countP_append, countP_resolve, countP_declaredOrder]
        simp [hother]
    · rfl

end ResourceGraph

end Thesaurus
