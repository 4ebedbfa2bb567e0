import Thesaurus.Proofs.Graph.Facts

/-!
# Histories of requests

What a resource is depends on the first kind that was asked for and on whether an ordered collection
was asked for at any time, but not on the order of the other requests. Those that clash with the
first kind are conflicts, and no others are.

- `Kind.afterAll`, `Kind.conflicts`: what becomes of a kind, and how many requests are refused.
- `Kind.afterAll_of_isKnown`, `Kind.conflicts_of_isKnown`: the same once anything is known.
- `ResourceGraph.requestAll`: requests for the kind of one resource.
- `ResourceGraph.get_requestAll`, `ResourceGraph.issues_requestAll`: they turn its kind as they turn
  a kind alone, and record the conflicts.
- `requests_settle`: what any history makes of a resource of which nothing was known.
-/

namespace Thesaurus

open Rdf (Node Relation)

namespace Kind

variable {k requested first : Kind} {requests : List Kind}

/-- The kind after requests, one after the other. -/
def afterAll (current : Kind) (requests : List Kind) : Kind :=
  requests.foldl after current

/-- How many of some requests are refused when they are made one after the other. -/
def conflicts : (current : Kind) → (requests : List Kind) → Nat
  | _, [] => 0
  | current, requested :: rest =>
    (if current.transition requested = .conflict then 1 else 0)
      + conflicts (current.after requested) rest

/-! ## One request -/

/-- What is known changes in one way only: a collection becomes ordered. -/
theorem after_of_isKnown (h : k.isKnown = true) (requested : Kind) : k.after requested =
    if k = collection ∧ requested = orderedCollection then orderedCollection else k := by
  cases k <;> cases requested <;> first | rfl | contradiction

theorem isKnown_after (h : k.isKnown = true) (requested : Kind) :
    (k.after requested).isKnown = true := by
  cases k <;> cases requested <;> first | rfl | contradiction

/-- What clashes with a kind clashes with all that it becomes. -/
theorem clashes_after (h : k.isKnown = true) (other requested : Kind) :
    other.clashes (k.after requested) = other.clashes k := by
  cases k <;> cases requested <;> first | contradiction | (cases other <;> rfl)

/-- Just the requests for kinds that clash with the present one are refused. -/
theorem transition_eq_conflict (h : k.isKnown = true) : k.transition requested = .conflict ↔
    (requested.isKnown && requested.clashes k) = true := by
  cases k <;> cases requested <;> first | decide | contradiction

/-! ## Many requests -/

theorem afterAll_of_isKnown (h : k.isKnown = true) (requests : List Kind) : k.afterAll requests =
    if k = collection ∧ orderedCollection ∈ requests then orderedCollection else k := by
  induction requests generalizing k with
  | nil => simp [afterAll]
  | cons requested rest ih =>
    have hstep : k.afterAll (requested :: rest) = (k.after requested).afterAll rest := rfl
    rw [hstep, ih (isKnown_after h requested), after_of_isKnown h]
    by_cases hturns : k = collection ∧ requested = orderedCollection
    · obtain ⟨rfl, rfl⟩ := hturns
      simp
    · rw [if_neg hturns]
      refine if_congr ?_ rfl rfl
      constructor
      · rintro ⟨hsame, hmem⟩
        exact ⟨hsame, List.mem_cons_of_mem _ hmem⟩
      · rintro ⟨rfl, hmem⟩
        exact ⟨rfl, (List.mem_cons.1 hmem).resolve_left fun hordered => hturns ⟨rfl, hordered.symm⟩⟩

theorem conflicts_of_isKnown (h : k.isKnown = true) (requests : List Kind) :
    k.conflicts requests =
      requests.countP fun requested => requested.isKnown && requested.clashes k := by
  induction requests generalizing k with
  | nil => rfl
  | cons requested rest ih =>
    rw [conflicts, ih (isKnown_after h requested), List.countP_cons, Nat.add_comm]
    simp only [clashes_after h]
    exact congrArg _ (if_congr (transition_eq_conflict h) rfl rfl)

/-! ## From nothing -/

theorem afterAll_unknown (h : ∀ requested ∈ requests, requested = unknown) :
    unknown.afterAll requests = unknown := by
  induction requests with
  | nil => rfl
  | cons requested rest ih =>
    obtain rfl := h requested List.mem_cons_self
    exact ih fun other hmem => h other (List.mem_cons_of_mem _ hmem)

/-- The first kind that is asked for is taken, and all that comes later is asked of it. -/
theorem unknown_of_first (h : requests.find? isKnown = some first) :
    ∃ skipped later, requests = skipped ++ first :: later ∧ (∀ k ∈ skipped, k = unknown) ∧
      unknown.afterAll requests = first.afterAll later ∧
      unknown.conflicts requests = first.conflicts later := by
  induction requests with
  | nil => cases h
  | cons requested rest ih =>
    by_cases hknown : requested.isKnown = true
    · rw [List.find?_cons_of_pos hknown] at h
      obtain rfl := Option.some.inj h
      refine ⟨[], rest, rfl, by simp, ?_⟩
      cases requested <;> first
        | contradiction
        | exact ⟨rfl, by simp [conflicts, transition, after]⟩
    · have hnothing : requested = unknown := by
        cases requested <;> first | rfl | exact absurd rfl hknown
      subst hnothing
      rw [List.find?_cons_of_neg hknown] at h
      obtain ⟨skipped, later, rfl, hunknowns, hkind, hrefused⟩ := ih h
      refine ⟨unknown :: skipped, later, rfl, ?_, hkind, ?_⟩
      · simpa using hunknowns
      · rw [conflicts, ← hrefused]
        simp [transition, after]

/-- The first kind stays, unless an ordered collection is asked for of a collection. -/
theorem afterAll_of_first (h : requests.find? isKnown = some first) :
    unknown.afterAll requests =
      if first = collection ∧ orderedCollection ∈ requests then orderedCollection else first := by
  have hknown : first.isKnown = true := List.find?_some h
  obtain ⟨skipped, later, rfl, hunknowns, hkind, _⟩ := unknown_of_first h
  rw [hkind, afterAll_of_isKnown hknown]
  refine if_congr (and_congr_right ?_) rfl rfl
  rintro rfl
  have hbefore : orderedCollection ∉ skipped := fun hmem => absurd (hunknowns _ hmem) (by decide)
  simp [hbefore]

/-- Just the requests for kinds that clash with the first one are refused. -/
theorem conflicts_of_first (h : requests.find? isKnown = some first) :
    unknown.conflicts requests =
      requests.countP fun requested => requested.isKnown && requested.clashes first := by
  have hknown : first.isKnown = true := List.find?_some h
  obtain ⟨skipped, later, rfl, hunknowns, _, hrefused⟩ := unknown_of_first h
  have hbefore : skipped.countP (fun requested =>
      requested.isKnown && requested.clashes first) = 0 := by
    refine List.countP_eq_zero.2 fun k hmem => ?_
    rw [hunknowns k hmem]
    simp [isKnown]
  have hitself : ¬ (first.isKnown && first.clashes first) = true := by simp [clashes]
  rw [hrefused, conflicts_of_isKnown hknown, List.countP_append, hbefore, Nat.zero_add,
    List.countP_cons, if_neg hitself, Nat.add_zero]

/-! ## In a graph -/

/-- The conflicts that requests leave behind, made one after the other. -/
def refusals (n : Node) : (current : Kind) → (asked : List (Kind × Relation)) → List Issue
  | _, [] => []
  | current, (requested, cause) :: rest =>
    current.refusal n requested cause ++ refusals n (current.after requested) rest

theorem length_refusals (n : Node) (k : Kind) (asked : List (Kind × Relation)) :
    (refusals n k asked).length = k.conflicts (asked.map (·.1)) := by
  induction asked generalizing k with
  | nil => rfl
  | cons first rest ih =>
    obtain ⟨requested, cause⟩ := first
    rw [refusals, List.length_append, ih, List.map_cons, conflicts, refusal]
    split <;> rfl

theorem kind_of_mem_refusals {n : Node} {k : Kind} {asked : List (Kind × Relation)} {i : Issue}
    (h : i ∈ refusals n k asked) : i.kind = .typeConflict := by
  induction asked generalizing k with
  | nil => cases h
  | cons first rest ih =>
    obtain ⟨requested, cause⟩ := first
    rw [refusals, List.mem_append] at h
    exact h.elim kind_of_mem_refusal ih

end Kind

namespace ResourceGraph

variable {g : ResourceGraph} {id : ResourceId} {r : Resource}

/-- The graph after requests for kinds of one resource, one after the other. -/
def requestAll (g : ResourceGraph) (id : ResourceId) (asked : List (Kind × Relation)) :
    ResourceGraph :=
  asked.foldl (fun g (requested, cause) => g.request id requested cause) g

/-- A request changes nothing of the resource but its kind. -/
theorem asked_of_found (hfound : g.resources[id]? = some r) (requested : Kind) (cause : Relation) :
    (g.request id requested cause).resources[id]? =
      some { r with kind := r.kind.after requested } := by
  rw [get_request, if_pos rfl, hfound, Option.map_some]

theorem get_requestAll (hfound : g.resources[id]? = some r) (asked : List (Kind × Relation)) :
    (g.requestAll id asked).resources[id]? =
      some { r with kind := r.kind.afterAll (asked.map (·.1)) } := by
  induction asked generalizing g r with
  | nil => exact hfound
  | cons first rest ih => exact ih (asked_of_found hfound first.1 first.2)

theorem issues_requestAll (hfound : g.resources[id]? = some r) (asked : List (Kind × Relation)) :
    (g.requestAll id asked).issues = g.issues ++ Kind.refusals r.node r.kind asked := by
  induction asked generalizing g r with
  | nil => exact (List.append_nil _).symm
  | cons first rest ih =>
    obtain ⟨requested, cause⟩ := first
    have hstep : g.requestAll id ((requested, cause) :: rest) =
        (g.request id requested cause).requestAll id rest := rfl
    have hleft : g.refusal id requested cause = r.kind.refusal r.node requested cause := by
      rw [refusal, hfound, Option.elim_some]
    rw [hstep, ih (asked_of_found hfound requested cause), request_eq, hleft, Kind.refusals,
      List.append_assoc]

end ResourceGraph

/-- A resource of which nothing is known stays so until a kind is asked for. From then on it is of
that kind, where a collection is ordered just if an ordered one is asked for at any time. Requests
that clash with the first kind are conflicts, which are recorded, and no others are; the two kinds
of collection do not clash. -/
theorem requests_settle (requests : List Kind) :
    ((∀ requested ∈ requests, requested = .unknown) →
      Kind.unknown.afterAll requests = .unknown) ∧
    (∀ first, requests.find? Kind.isKnown = some first →
      (first.isCollection = false → Kind.unknown.afterAll requests = first) ∧
      (first.isCollection = true → Kind.unknown.afterAll requests =
        if .orderedCollection ∈ requests then .orderedCollection else .collection) ∧
      Kind.unknown.conflicts requests =
        requests.countP fun requested => requested.isKnown && requested.clashes first) ∧
    ∀ (g : ResourceGraph) (id : ResourceId) (r : Resource) (asked : List (Kind × Relation)),
      g.resources[id]? = some r → r.kind = .unknown → asked.map (·.1) = requests →
      (g.requestAll id asked).resources[id]? =
        some { r with kind := Kind.unknown.afterAll requests } ∧
      ∃ added, (g.requestAll id asked).issues = g.issues ++ added ∧
        added.length = Kind.unknown.conflicts requests ∧ ∀ i ∈ added, i.kind = .typeConflict := by
  refine ⟨Kind.afterAll_unknown, fun first h => ⟨fun hsingle => ?_, fun hcollects => ?_,
    Kind.conflicts_of_first h⟩, fun g id r asked hfound hnothing hsame => ?_⟩
  · have hother : first ≠ .collection := by
      rintro rfl
      cases hsingle
    rw [Kind.afterAll_of_first h, if_neg fun hboth => hother hboth.1]
  · have hmem : first ∈ requests := List.mem_of_find?_eq_some h
    rw [Kind.afterAll_of_first h]
    -- of the kinds of collections only the ordered one is kept against the other
    cases first with
    | collection => simp
    | orderedCollection => simp [hmem]
    | unknown | concept | conceptScheme => cases hcollects
  · rw [ResourceGraph.get_requestAll hfound, hnothing, hsame]
    refine ⟨rfl, _, ResourceGraph.issues_requestAll hfound asked, ?_,
      fun i hmem => Kind.kind_of_mem_refusals hmem⟩
    rw [Kind.length_refusals, hnothing, hsame]

/-- A resource of which nothing is known. -/
def unknownResource : Resource :=
  { id := 0, node := .iri "urn:k" }

/-- A graph of that resource alone. -/
def graphOfUnknown : ResourceGraph where
  configuration := {}
  resources := #[unknownResource]
  index := ⟨[(.iri "urn:k", 0)]⟩

/-- Requests that begin with none, and of which two contradict the first that is met. -/
def mixedRequests : List (Kind × Relation) := [
  (.unknown, .type), (.collection, .member), (.concept, .broader),
  (.orderedCollection, .memberList), (.conceptScheme, .inScheme), (.collection, .member)]

/-- The resource becomes a collection and then an ordered one, and two requests are conflicts. A
concept stays a concept, and nothing becomes of a resource of which nothing is asked. -/
theorem requests_settle_mixed :
    Kind.unknown.afterAll [.unknown, .unknown] = .unknown ∧
    Kind.unknown.afterAll [.concept, .orderedCollection] = .concept ∧
    (mixedRequests.map (·.1)).find? Kind.isKnown = some .collection ∧
    Kind.unknown.conflicts (mixedRequests.map (·.1)) = 2 ∧
    (graphOfUnknown.requestAll 0 mixedRequests).resources[0]? =
      some { unknownResource with kind := .orderedCollection } ∧
    ∃ added, (graphOfUnknown.requestAll 0 mixedRequests).issues = added ∧
      added.length = 2 ∧ ∀ i ∈ added, i.kind = .typeConflict := by
  obtain ⟨_, hsettled, hrecorded⟩ := requests_settle (mixedRequests.map (·.1))
  obtain ⟨_, hcollects, hrefused⟩ := hsettled .collection rfl
  obtain ⟨hfound, added, hissues, hcount, hconflicts⟩ :=
    hrecorded graphOfUnknown 0 unknownResource mixedRequests rfl rfl rfl
  have hunasked := (requests_settle [.unknown, .unknown]).1 (by decide)
  have hconcept := ((requests_settle [.concept, .orderedCollection]).2.1 .concept rfl).1 rfl
  refine ⟨hunasked, hconcept, rfl, hrefused, ?_, added, hissues, hcount.trans hrefused, hconflicts⟩
  rw [hfound, hcollects rfl]
  rfl

end Thesaurus
