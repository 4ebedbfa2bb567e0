import Thesaurus.Proofs.Graph.Facts

/-!
# What each change lets a graph know

A change of a graph is described by the facts that the graph knows afterwards and did not know
before.

- `ResourceGraph.FindsBoth`: two nodes and where they are found.
- `ResourceGraph.learns_ensure`, `ResourceGraph.learns_request`: a new resource, and its kind.
- `ResourceGraph.relates_narrow_iff` and so on: what new links relate.
- `ResourceGraph.learns_narrow`, `ResourceGraph.learns_join`, `ResourceGraph.learns_gather`,
  `ResourceGraph.learns_head`: links and member lists.
- `ResourceGraph.takes_linkCell`: list cells.
-/

namespace Thesaurus

open Rdf (Node Relation)

namespace ResourceGraph

variable {g g' g₁ : ResourceGraph} {i j : ResourceId} {m n : Node} {r : Resource} {a b : Fact}
  {facts : List Fact}

/-! ## Looking up -/

theorem found_request {requested : Kind} {cause : Relation} (hm : g.lookup m = some j) :
    (g.request i requested cause).lookup m = some j := by
  rwa [lookup_request]

theorem lookup_ensure_self : (g.ensure n).lookup n = some (g.idOf n) := by
  rw [lookup_ensure, if_pos rfl]

theorem lookup_ensure_of_ne (hne : m ≠ n) : (g.ensure n).lookup m = g.lookup m := by
  rw [lookup_ensure, if_neg hne]

/-- What was found is still found at its id. -/
theorem lookup_ensure_of_some (hm : g.lookup m = some i) : (g.ensure n).lookup m = some i := by
  by_cases hsame : m = n
  · subst hsame
    rw [lookup_ensure_self, idOf, hm]
    rfl
  · rw [lookup_ensure_of_ne hsame, hm]

/-- What is found at an id that was there is what was found there. -/
theorem lookup_of_ensure (hm : (g.ensure n).lookup m = some i) (hi : i < g.size) :
    g.lookup m = some i := by
  by_cases hsame : m = n
  · subst hsame
    rw [lookup_ensure_self, Option.some.injEq, idOf] at hm
    cases hfound : g.lookup m with
    | some j => rw [← hm, hfound, Option.getD_some]
    | none =>
      rw [hfound, Option.getD_none] at hm
      exact absurd (hm ▸ hi) (Nat.lt_irrefl _)
  · rwa [lookup_ensure_of_ne hsame] at hm

/-- Whether a graph that agrees with its index has two nodes at given ids. Every link is made
between two nodes that are found like this. -/
structure FindsBoth (g : ResourceGraph) (m n : Node) (i j : ResourceId) : Prop where
  indexed : Indexed g
  left : g.lookup m = some i
  right : g.lookup n = some j

namespace FindsBoth

theorem symm (h : FindsBoth g m n i j) : FindsBoth g n m j i :=
  ⟨h.indexed, h.right, h.left⟩

theorem left_lt (h : FindsBoth g m n i j) : i < g.size :=
  lookup_lt h.indexed h.left

theorem right_lt (h : FindsBoth g m n i j) : j < g.size :=
  lookup_lt h.indexed h.right

theorem eq_left {k : Node} (h : FindsBoth g m n i j) (hk : g.lookup k = some i) : k = m :=
  eq_of_lookup h.indexed hk h.left

theorem eq_right {k : Node} (h : FindsBoth g m n i j) (hk : g.lookup k = some j) : k = n :=
  eq_of_lookup h.indexed hk h.right

/-- Two nodes that are named one after the other are found. -/
theorem ensure (h : Indexed g) (m n : Node) :
    FindsBoth ((g.ensure m).ensure n) m n (g.idOf m) ((g.ensure m).idOf n) :=
  ⟨h.ensure.ensure, lookup_ensure_of_some lookup_ensure_self, lookup_ensure_self⟩

theorem request {id : ResourceId} (h : FindsBoth g m n i j) (requested : Kind) (cause : Relation) :
    FindsBoth (g.request id requested cause) m n i j :=
  ⟨indexed_request h.indexed, found_request h.left, found_request h.right⟩

end FindsBoth

theorem kindAt_ensure : (g.ensure n).kindAt m = g.kindAt m := by
  by_cases hsame : m = n
  · subst hsame
    rw [kindAt_eq lookup_ensure_self, kindOf_ensure, idOf]
    cases hfound : g.lookup m with
    | some i => exact (kindAt_eq hfound).symm
    | none => simp [kindAt, hfound, kindOf, get_of_size_le (Nat.le_refl g.size)]
  · rw [kindAt, kindAt, lookup_ensure_of_ne hsame]
    cases g.lookup m with
    | some i => exact kindOf_ensure
    | none => rfl

theorem headAt_ensure : (g.ensure n).headAt m = g.headAt m := by
  by_cases hsame : m = n
  · subst hsame
    rw [headAt, headAt, lookup_ensure_self, Option.bind_some, linksOf_ensure, idOf]
    cases hfound : g.lookup m with
    | some i => rfl
    | none => simp [linksOf, get_of_size_le (Nat.le_refl g.size)]
  · simp only [headAt, lookup_ensure_of_ne hsame, linksOf_ensure]

/-- A new resource is related to nothing. -/
theorem relates_ensure (h : Sound g) {tie : Tie} {k : Node} :
    (g.ensure n).Relates tie m k ↔ g.Relates tie m k := by
  constructor
  · rintro ⟨i, j, hm, hk, hrelated⟩
    rw [linksOf_ensure] at hrelated
    obtain ⟨s, hs⟩ := exists_of_mem_along h hrelated
    have hinside : i < g.size := Sound.lt_size_of_mem (f := (·.along tie)) (by simp) hrelated
    exact ⟨i, j, lookup_of_ensure hm hinside, lookup_of_ensure hk (lt_size hs), hrelated⟩
  · rintro ⟨i, j, hm, hk, hrelated⟩
    exact ⟨i, j, lookup_ensure_of_some hm, lookup_ensure_of_some hk, by rwa [linksOf_ensure]⟩

theorem cells_ensure : (g.ensure n).cells = g.cells := by
  unfold ensure
  split <;> rfl

theorem conflicted_ensure : (g.ensure n).Conflicted ↔ g.Conflicted := by
  unfold ensure
  split <;> rfl

/-- Adding a resource adds its name and nothing else. -/
theorem learns_ensure (h : Sound g) (n : Node) : Learns g [.named n] (g.ensure n) where
  knows_iff := fun fact => by
    cases fact with
    | named m =>
      by_cases hsame : m = n
      · simp [Knows, hsame, lookup_ensure_self]
      · simp [Knows, hsame, lookup_ensure_of_ne hsame]
    | kind m k => simp [Knows, kindAt_ensure]
    | narrower upper lower => simp [Knows, relates_ensure h]
    | inScheme m scheme => simp [Knows, relates_ensure h]
    | topConcept m scheme => simp [Knows, relates_ensure h]
    | member collection m => simp [Knows, relates_ensure h]
    | list collection head => simp [Knows, headAt_ensure]
    | cell cell slot value => simp [Knows, cells_ensure]
  conflicted_iff := conflicted_ensure

/-- A graph knows nothing new if resources are found, are of kinds and have links as before. -/
theorem learns_nothing (hlookup : g'.lookup = g.lookup) (hkinds : g'.kindOf = g.kindOf)
    (hlinks : g'.linksOf = g.linksOf) (hcells : g'.cells = g.cells)
    (hissues : g'.Conflicted ↔ g.Conflicted) : Learns g [] g' where
  knows_iff := fun fact => by
    cases fact <;> simp [Knows, kindAt, Relates, headAt, hlookup, hkinds, hlinks, hcells]
  conflicted_iff := hissues

/-! ## Kinds -/

theorem conflicted_report {issue : Issue}
    (h : issue.kind = .typeConflict ∨ issue.kind = .listConflict) : (g.report issue).Conflicted :=
  ⟨issue, by simp [ResourceGraph.report], h⟩

/-- A recorded conflict stays recorded. -/
theorem Conflicted.request (h : g.Conflicted) (id : ResourceId) (requested : Kind)
    (cause : Relation) : (g.request id requested cause).Conflicted := by
  obtain ⟨i, hmem, hkind⟩ := h
  rw [request_eq]
  exact ⟨i, List.mem_append_left _ hmem, hkind⟩

/-- A kind that is refused is a recorded conflict. -/
theorem conflicted_request {requested : Kind} {cause : Relation}
    (hrefused : g.admits i requested = false) : (g.request i requested cause).Conflicted := by
  have hleft : g.refusal i requested cause ≠ [] := fun hnothing => by
    rw [refusal_eq_nil_iff.1 hnothing] at hrefused
    cases hrefused
  obtain ⟨issue, hmem⟩ := List.exists_mem_of_ne_nil _ hleft
  rw [request_eq]
  exact ⟨issue, List.mem_append_right _ hmem, .inl (kind_of_mem_refusal hmem)⟩

theorem linksOf_request {requested : Kind} {cause : Relation} :
    (g.request i requested cause).linksOf = g.linksOf := by
  have hsame :
      (g.update i fun r => { r with kind := r.kind.after requested }).linksOf = g.linksOf :=
    linksOf_update fun _ => rfl
  rw [request_eq]
  exact hsame

theorem cells_request {requested : Kind} {cause : Relation} :
    (g.request i requested cause).cells = g.cells := by
  rw [request_eq]
  rfl

theorem conflicted_request_iff {requested : Kind} {cause : Relation}
    (hadmitted : g.admits i requested = true) :
    (g.request i requested cause).Conflicted ↔ g.Conflicted := by
  rw [request_eq, refusal_eq_nil_iff.2 hadmitted, List.append_nil]
  rfl

/-- A kind that is not refused is learned. -/
theorem learns_request {requested : Kind} {cause : Relation} (h : Indexed g)
    (hn : g.lookup n = some i) (hknown : requested.isKnown = true)
    (hadmitted : g.admits i requested = true) :
    Learns g (Fact.kinds n requested) (g.request i requested cause) := by
  obtain ⟨r, hr, _⟩ := lookup_eq_some h hn
  have hinside : i < g.size := lt_size hr
  -- only this node has another kind afterwards, since no other node has its id
  have hkinds : ∀ m, (g.request i requested cause).kindAt m =
      if m = n then (g.kindAt n).after requested else g.kindAt m := by
    intro m
    rw [kindAt, lookup_request]
    by_cases hsame : m = n
    · rw [if_pos hsame, hsame, hn, kindAt_eq hn, Option.elim_some, kindOf_request hinside,
        if_pos rfl]
    · rw [if_neg hsame, kindAt]
      cases hm : g.lookup m with
      | none => rfl
      | some j =>
        have hapart : j ≠ i := by
          rintro rfl
          exact hsame (eq_of_lookup h hm hn)
        rw [Option.elim_some, Option.elim_some, kindOf_request hinside, if_neg hapart]
  -- facts of other forms are neither stated nor touched
  have hothers : ∀ fact, (∀ k, fact ≠ .kind n k) → fact ∉ Fact.kinds n requested := by
    intro fact hfact hmem
    obtain ⟨k, heq⟩ := Fact.exists_of_mem_kinds hmem
    exact hfact k heq
  constructor
  · intro fact
    cases fact with
    | kind m k =>
      rw [Fact.mem_kinds hknown]
      show ((g.request i requested cause).kindAt m).isA k = true ↔
        (g.kindAt m).isA k = true ∨ m = n ∧ requested.isA k = true
      rw [hkinds]
      by_cases hsame : m = n
      · rw [if_pos hsame, hsame, Kind.isA_after hknown]
        · simp
        · rw [kindAt_eq hn]
          simpa [admits] using hadmitted
      · simp [hsame]
    | named m => simp [Knows, hothers]
    | narrower upper lower => simp [Knows, hothers, Relates, linksOf_request]
    | inScheme m scheme => simp [Knows, hothers, Relates, linksOf_request]
    | topConcept m scheme => simp [Knows, hothers, Relates, linksOf_request]
    | member collection m => simp [Knows, hothers, Relates, linksOf_request]
    | list collection head => simp [Knows, hothers, headAt, linksOf_request]
    | cell cell slot value => simp [Knows, hothers, cells_request]
  · exact conflicted_request_iff hadmitted

/-- A kind that is refused contradicts the present one. -/
theorem exists_clash_of_refused {requested : Kind} (hn : g.lookup n = some i)
    (hrefused : g.admits i requested = false) :
    ∃ b, g.Knows b ∧ (Fact.kind n requested).Clashes b := by
  have hconflict : (g.kindAt n).transition requested = .conflict := by
    simpa [admits, kindAt_eq hn] using hrefused
  obtain ⟨hknown, hclash⟩ := Kind.clashes_of_conflict hconflict
  refine ⟨.kind n (g.kindAt n), ?_, rfl, hclash⟩
  show (g.kindAt n).isA (g.kindAt n) = true
  simp [Kind.isA, hknown]

/-! ## Links -/

end ResourceGraph

/-- Ties of one thing to another, and others back. -/
def Tie.between {α : Type} (forth back : List Tie) (x y : α) : List (Tie × α × α) :=
  forth.map (·, x, y) ++ back.map (·, y, x)

theorem Tie.mem_between {α : Type} {forth back : List Tie} {tie : Tie} {x y v w : α} :
    (tie, v, w) ∈ Tie.between forth back x y ↔
      tie ∈ forth ∧ v = x ∧ w = y ∨ tie ∈ back ∧ v = y ∧ w = x := by
  simp [Tie.between, eq_comm]

/-- The fact that a tie stands for, unless it is a way back: that fact is the one of the tie that it
leads back along. -/
def Fact.ofTie? : Tie × Node × Node → Option Fact
  | (.narrower, upper, lower) => some (.narrower upper lower)
  | (.schemeMembers, scheme, m) => some (.inScheme m scheme)
  | (.topConcepts, scheme, m) => some (.topConcept m scheme)
  | (.members, collection, m) => some (.member collection m)
  | (.broader, _) | (.inSchemes, _) | (.inCollections, _) => none

theorem Fact.ofTie?_inj {s t : Tie × Node × Node} {fact : Fact} (hs : ofTie? s = some fact)
    (ht : ofTie? t = some fact) : s = t := by
  obtain ⟨tie, x, y⟩ := s
  obtain ⟨tie', v, w⟩ := t
  cases tie <;> cases hs <;> cases tie' <;> cases ht <;> rfl

section Links

variable {links : ResourceId → Links} {a b i j : ResourceId} {tie : Tie}

theorem along_narrowed : b ∈ (narrowed i j links a).along tie ↔ b ∈ (links a).along tie ∨
    (tie, a, b) ∈ Tie.between [.narrower] [.broader] i j := by
  cases tie <;> simp [narrowed, Links.along, mem_ite_insert, Tie.mem_between, or_comm]

theorem along_joined {top : Bool} :
    b ∈ (joined i j top links a).along tie ↔ b ∈ (links a).along tie ∨
      (tie, a, b) ∈
        Tie.between [.inSchemes] (.schemeMembers :: if top then [.topConcepts] else []) i j := by
  cases top <;> cases tie <;>
    simp [joined, Links.along, mem_ite_insert, Tie.mem_between, or_comm]

theorem along_gathered : b ∈ (gathered i j links a).along tie ↔ b ∈ (links a).along tie ∨
    (tie, a, b) ∈ Tie.between [.members] [.inCollections] i j := by
  cases tie <;> simp [gathered, Links.along, mem_ite_insert, Tie.mem_between, or_comm]

end Links

namespace ResourceGraph

variable {g g' : ResourceGraph} {i j : ResourceId} {k l m n : Node} {tie : Tie}

/-- A graph that ties two resources and nothing else relates their nodes and nothing else. -/
theorem relates_tied (forth back : List Tie) (h : FindsBoth g m n i j)
    (hlookup : g'.lookup = g.lookup)
    (halong : ∀ a b, b ∈ (g'.linksOf a).along tie ↔
      b ∈ (g.linksOf a).along tie ∨ (tie, a, b) ∈ Tie.between forth back i j) :
    g'.Relates tie k l ↔ g.Relates tie k l ∨ (tie, k, l) ∈ Tie.between forth back m n := by
  unfold Relates
  simp only [Tie.mem_between] at halong ⊢
  rw [hlookup]
  constructor
  · rintro ⟨a, b, hk, hl, hrelated⟩
    obtain hbefore | ⟨hforth, rfl, rfl⟩ | ⟨hback, rfl, rfl⟩ := (halong a b).1 hrelated
    · exact .inl ⟨a, b, hk, hl, hbefore⟩
    · exact .inr (.inl ⟨hforth, h.eq_left hk, h.eq_right hl⟩)
    · exact .inr (.inr ⟨hback, h.eq_right hk, h.eq_left hl⟩)
  · rintro (⟨a, b, hk, hl, hbefore⟩ | ⟨hforth, rfl, rfl⟩ | ⟨hback, rfl, rfl⟩)
    · exact ⟨a, b, hk, hl, (halong a b).2 (.inl hbefore)⟩
    · exact ⟨i, j, h.left, h.right, (halong i j).2 (.inr (.inl ⟨hforth, rfl, rfl⟩))⟩
    · exact ⟨j, i, h.right, h.left, (halong j i).2 (.inr (.inr ⟨hback, rfl, rfl⟩))⟩

/-- Two concepts are linked at both ends, and nothing else is. -/
theorem relates_narrow_iff (h : FindsBoth g m n i j) :
    (g.narrow i j).Relates tie k l ↔ g.Relates tie k l ∨
      (tie, k, l) ∈ [(Tie.narrower, m, n), (Tie.broader, n, m)] :=
  relates_tied [.narrower] [.broader] h rfl fun a b => by
    rw [linksOf_narrow h.left_lt h.right_lt]
    exact along_narrowed

/-- So are a resource and a scheme. -/
theorem relates_join_iff (h : FindsBoth g m n i j) (top : Bool) :
    (g.join i j top).Relates tie k l ↔ g.Relates tie k l ∨
      (tie, k, l) ∈ [(Tie.inSchemes, m, n), (Tie.schemeMembers, n, m)] ++
        if top then [(Tie.topConcepts, n, m)] else [] := by
  have htied : (g.join i j top).Relates tie k l ↔ g.Relates tie k l ∨ (tie, k, l) ∈
      Tie.between [.inSchemes] (.schemeMembers :: if top then [.topConcepts] else []) m n :=
    relates_tied _ _ h rfl fun a b => by
      rw [linksOf_join h.left_lt h.right_lt]
      exact along_joined
  cases top <;> exact htied

/-- So are a collection and a member. -/
theorem relates_gather_iff (h : FindsBoth g m n i j) :
    (g.gather i j).Relates tie k l ↔ g.Relates tie k l ∨
      (tie, k, l) ∈ [(Tie.members, m, n), (Tie.inCollections, n, m)] :=
  relates_tied [.members] [.inCollections] h rfl fun a b => by
    rw [linksOf_gather h.left_lt h.right_lt]
    exact along_gathered

/-- A graph that relates more nodes than another, and is the same otherwise, learns what the ties
between them stand for. -/
theorem learns_ties (ties : List (Tie × Node × Node)) (hlookup : g'.lookup = g.lookup)
    (hkinds : g'.kindOf = g.kindOf)
    (hheads : ∀ id, (g'.linksOf id).memberList = (g.linksOf id).memberList)
    (hcells : g'.cells = g.cells) (hissues : g'.issues = g.issues)
    (hrelates : ∀ tie k l, g'.Relates tie k l ↔ g.Relates tie k l ∨ (tie, k, l) ∈ ties) :
    Learns g (ties.filterMap Fact.ofTie?) g' := by
  have hmem {fact : Fact} {t : Tie × Node × Node} (hfact : Fact.ofTie? t = some fact) :
      fact ∈ ties.filterMap Fact.ofTie? ↔ t ∈ ties := by
    rw [List.mem_filterMap]
    constructor
    · rintro ⟨s, hs, hsfact⟩
      exact Fact.ofTie?_inj hsfact hfact ▸ hs
    · exact fun ht => ⟨t, ht, hfact⟩
  -- what is no tie is no fact of a tie
  have hother {fact : Fact} (hfact : ∀ t, Fact.ofTie? t ≠ some fact)
      (hknows : g'.Knows fact ↔ g.Knows fact) :
      g'.Knows fact ↔ g.Knows fact ∨ fact ∈ ties.filterMap Fact.ofTie? := by
    have hnot : fact ∉ ties.filterMap Fact.ofTie? := fun hmem => by
      obtain ⟨t, _, ht⟩ := List.mem_filterMap.1 hmem
      exact hfact t ht
    simp [hknows, hnot]
  refine ⟨fun fact => ?_, by rw [Conflicted, Conflicted, hissues]⟩
  cases fact with
  | narrower upper lower =>
    exact (hrelates .narrower upper lower).trans (or_congr_right (hmem rfl).symm)
  | inScheme m scheme =>
    exact (hrelates .schemeMembers scheme m).trans (or_congr_right (hmem rfl).symm)
  | topConcept m scheme =>
    exact (hrelates .topConcepts scheme m).trans (or_congr_right (hmem rfl).symm)
  | member collection m =>
    exact (hrelates .members collection m).trans (or_congr_right (hmem rfl).symm)
  | named n => exact hother (by rintro ⟨_ | _, _⟩ h <;> cases h) (by simp [Knows, hlookup])
  | kind n k =>
    exact hother (by rintro ⟨_ | _, _⟩ h <;> cases h) (by simp [Knows, kindAt, hlookup, hkinds])
  | list collection head =>
    exact hother (by rintro ⟨_ | _, _⟩ h <;> cases h) (by simp [Knows, headAt, hlookup, hheads])
  | cell cell slot value =>
    exact hother (by rintro ⟨_ | _, _⟩ h <;> cases h) (by simp [Knows, hcells])

theorem learns_narrow (h : FindsBoth g m n i j) :
    Learns g [.narrower m n] (g.narrow i j) :=
  learns_ties [(.narrower, m, n), (.broader, n, m)] rfl (funext fun _ => by simp [narrow])
    (fun id => by rw [linksOf_narrow h.left_lt h.right_lt]; rfl) rfl rfl
    fun _ _ _ => relates_narrow_iff h

/-- A resource in a scheme is learned, and that it is a top concept where this is said. -/
theorem learns_join (h : FindsBoth g m n i j) (top : Bool) :
    Learns g (.inScheme m n :: if top then [.topConcept m n] else []) (g.join i j top) := by
  have hlearns : Learns g _ (g.join i j top) := learns_ties _ rfl (funext fun _ => by simp [join])
    (fun id => by rw [linksOf_join h.left_lt h.right_lt]; rfl) rfl rfl
    fun _ _ _ => relates_join_iff h top
  cases top <;> exact hlearns

theorem learns_gather (h : FindsBoth g m n i j) :
    Learns g [.member m n] (g.gather i j) :=
  learns_ties [(.members, m, n), (.inCollections, n, m)] rfl (funext fun _ => by simp [gather])
    (fun id => by rw [linksOf_gather h.left_lt h.right_lt]; rfl) rfl rfl
    fun _ _ _ => relates_gather_iff h

/-- The first head given to a member list is learned. -/
theorem learns_head {head : Node} (h : Indexed g) (hn : g.lookup n = some i)
    (hnone : (g.linksOf i).memberList = none) :
    Learns g [.list n head] (g.updateLinks i fun l => { l with memberList := some head }) := by
  obtain ⟨r, hr, _⟩ := lookup_eq_some h hn
  have halong : ∀ tie a, ((g.updateLinks i fun l => { l with memberList := some head }).linksOf
      a).along tie = (g.linksOf a).along tie := fun tie a =>
    field_updateLinks (·.along tie) fun l => by cases tie <;> rfl
  -- only this node has a head that it did not have
  have hheads : ∀ m, (g.updateLinks i fun l => { l with memberList := some head }).headAt m =
      if m = n then some head else g.headAt m := by
    intro m
    rw [headAt, lookup_updateLinks]
    by_cases hsame : m = n
    · rw [if_pos hsame, hsame, hn, Option.bind_some, linksOf_updateLinks _ (lt_size hr), if_pos rfl]
    · rw [if_neg hsame, headAt]
      cases hm : g.lookup m with
      | none => rfl
      | some j =>
        have hapart : j ≠ i := fun heq => hsame (eq_of_lookup h hm (heq ▸ hn))
        rw [Option.bind_some, Option.bind_some, linksOf_updateLinks _ (lt_size hr), if_neg hapart]
  have hkinds : (g.updateLinks i fun l => { l with memberList := some head }).kindAt = g.kindAt :=
    kindAt_congr (lookup_updateLinks _) (funext fun _ => kindOf_updateLinks _)
  refine ⟨fun fact => ?_, Iff.rfl⟩
  cases fact with
  | list collection first =>
    have hbefore : g.headAt n = none := by rw [headAt, hn, Option.bind_some, hnone]
    by_cases hsame : collection = n
    · simp [Knows, hheads, hsame, hbefore, eq_comm]
    · simp [Knows, hheads, hsame]
  | kind k kind => simp [Knows, hkinds]
  | named k => simp [Knows]
  | cell cell slot value => simp [Knows, updateLinks, update]
  | _ => simp [Knows, relates_congr (lookup_updateLinks _) (halong _)]

/-! ## Cells -/

end ResourceGraph

namespace ListCell

theorem get_set {known : ListCell} {slot slot' : CellSlot} {value : Node} :
    (known.set slot value).get slot' = if slot' = slot then some value else known.get slot' := by
  cases slot <;> cases slot' <;> rfl

end ListCell

namespace ResourceGraph

variable {g g' g₁ : ResourceGraph} {i j : ResourceId} {m n : Node} {r : Resource} {a b : Fact}
  {facts : List Fact} {slot : CellSlot}

/-- A value of a cell is learned, or contradicts the one that is known. -/
theorem takes_linkCell : Takes g [.cell m slot n] (g.linkCell m slot n) := by
  cases hfound : ((g.cells.cell? m).getD {}).get slot with
  | none =>
    have hquiet : g.cells.fillIssue? m slot n = none := by simp [CellStore.fillIssue?, hfound]
    have hfilled : (g.linkCell m slot n).cells =
        g.cells.put m (((g.cells.cell? m).getD {}).set slot n) := by
      simp [linkCell, CellStore.fill, hfound]
    -- only this slot of this cell has another value
    have hvalue : ∀ cell slot', (((g.linkCell m slot n).cells.cell? cell).getD {}).get slot' =
        if cell = m ∧ slot' = slot then some n else ((g.cells.cell? cell).getD {}).get slot' := by
      intro cell slot'
      rw [hfilled, CellStore.cell?, CellStore.put, Table.lookup_putInto]
      by_cases hsame : cell = m
      · simp [hsame, ListCell.get_set]
      · simp [hsame, CellStore.cell?]
    refine .inl ⟨fun fact => ?_, ?_⟩
    · cases fact with
      | cell cell slot' value' =>
        by_cases hsame : cell = m ∧ slot' = slot
        · obtain ⟨rfl, rfl⟩ := hsame
          simp [Knows, hvalue, hfound, eq_comm]
        · simp [Knows, hvalue, hsame]
          intro hm hs
          exact absurd ⟨hm, hs⟩ hsame
      | _ => simp [Knows]; rfl
    · simp [Conflicted, linkCell, hquiet]
  | some kept =>
    -- a slot keeps its value: the same one is known already, and another one is refuted
    by_cases hagrees : kept = n
    · subst hagrees
      have hsame : g.linkCell m slot kept = g := by
        simp [linkCell, CellStore.fill, CellStore.fillIssue?, hfound]
      rw [hsame]
      refine .inl (Learns.again fun fact hmem => ?_)
      rw [List.mem_singleton.1 hmem]
      exact hfound
    · have hconflict : g.cells.fillIssue? m slot n = some (.cellConflict m slot kept n) := by
        simp [CellStore.fillIssue?, hfound, hagrees]
      refine .inr ⟨⟨.cellConflict m slot kept n, ?_, .inr rfl⟩, _, List.mem_cons_self,
        .cell m slot kept, .inl hfound, rfl, rfl, Ne.symm hagrees⟩
      simp [linkCell, hconflict]

end ResourceGraph

end Thesaurus
