import Thesaurus.Proofs.Graph.Restriction
import Thesaurus.Proofs.Graph.Streams

/-!
# The order of statements

Statements form a set. As long as no two of them contradict each other, neither their order nor
their repetition can be told from the finished graph, when it is read through nodes.

- `CellStore.elements_congr`: lists depend on the values of cells only.
- `Mirrors`: graphs that cannot be told apart through nodes.
- `Mirrors.completed`: they cannot be told apart when they are finished either.
- `ingest_unordered`: streams with the same statements lead to such graphs.
-/

namespace Thesaurus

open Rdf (Node Triple)

/-! ## Lists -/

theorem ListCell.ext_get {known known' : ListCell} (h : ∀ slot, known.get slot = known'.get slot) :
    known = known' := by
  have hfirst := h .first
  have hrest := h .rest
  cases known
  cases known'
  simp_all [ListCell.get]

namespace CellStore

theorem lookup_dropCell {entries : List (Node × ListCell)} {cell other : Node} :
    (dropCell cell entries).lookup other =
      if other = cell then none else entries.lookup other := by
  unfold dropCell
  induction entries with
  | nil => simp
  | cons entry rest ih =>
    by_cases hdropped : entry.1 = cell
    · rw [List.filter_cons_of_neg (by simp [hdropped]), ih, List.lookup_cons, hdropped]
      by_cases hsame : other = cell
      · simp [hsame]
      · simp [hsame, beq_eq_false_iff_ne.2 hsame]
    · rw [List.filter_cons_of_pos (by simpa using hdropped), List.lookup_cons, List.lookup_cons, ih]
      by_cases hhere : other = entry.1
      · simp [hhere, hdropped]
      · simp [beq_eq_false_iff_ne.2 hhere]

section Following

variable {s : CellStore} {fresh : List (Node × ListCell)} {current next : Node} {known : ListCell}

/-- The first cells of a chain: none if nothing is known of the first, and otherwise the first and
those of the chain that follows. -/
theorem cells_follow (hcurrent : ¬ current.isNil = true) : (s.follow fresh current).cells =
    match fresh.lookup current with
    | none => []
    | some known => (current, known) ::
        known.rest.elim [] fun next => (s.follow (dropCell current fresh) next).cells := by
  rw [follow, if_neg hcurrent]
  split
  · next hfound => rw [hfound]
  · next known hfound =>
    rw [hfound]
    cases hrest : known.rest <;> simp [hrest, Chain.cons]

end Following

/-- The elements along a chain depend on what is known of its cells only, and of a cell of which
nothing is known it does not matter whether it is listed. -/
theorem elements_follow (s s' : CellStore) (fresh fresh' : List (Node × ListCell)) (current : Node)
    (h : ∀ cell, (fresh.lookup cell).getD {} = (fresh'.lookup cell).getD {}) :
    (s.follow fresh current).cells.filterMap (fun cell => elementOf? cell.2) =
      (s'.follow fresh' current).cells.filterMap fun cell => elementOf? cell.2 := by
  by_cases hisNil : current.isNil = true
  · rw [follow, follow, if_pos hisNil, if_pos hisNil]
  · have hhere := h current
    rw [cells_follow hisNil, cells_follow hisNil]
    -- a missing entry says as much as an empty one
    cases hfound : fresh.lookup current with
    | none =>
      rw [hfound, Option.getD_none] at hhere
      cases hfound' : fresh'.lookup current with
      | none => rfl
      | some known =>
        rw [hfound', Option.getD_some] at hhere
        subst hhere
        rfl
    | some known =>
      rw [hfound, Option.getD_some] at hhere
      cases hfound' : fresh'.lookup current with
      | none =>
        rw [hfound', Option.getD_none] at hhere
        subst hhere
        rfl
      | some known' =>
        rw [hfound', Option.getD_some] at hhere
        subst hhere
        cases hrest : known.rest with
        | none => simp [hrest]
        | some next =>
          have hafter : ∀ cell, ((dropCell current fresh).lookup cell).getD {} =
              ((dropCell current fresh').lookup cell).getD {} := by
            intro cell
            rw [lookup_dropCell, lookup_dropCell]
            split
            · rfl
            · exact h cell
          have htail := elements_follow s s' _ _ next hafter
          simp only [hrest, List.filterMap_cons, Option.elim_some, htail]
termination_by fresh.length
decreasing_by exact length_dropCell_lt hfound

/-- The elements of a list depend on the values of cells only. -/
theorem elements_congr {s s' : CellStore}
    (h : ∀ cell slot, ((s.cell? cell).getD {}).get slot = ((s'.cell? cell).getD {}).get slot)
    (owner head : Node) : (s.resolve owner head).elements = (s'.resolve owner head).elements := by
  have hcells : ∀ cell, (s.entries.lookup cell).getD {} = (s'.entries.lookup cell).getD {} :=
    fun cell => ListCell.ext_get (h cell)
  exact congrArg List.eraseDups (elements_follow s s' s.entries s'.entries head hcells)

end CellStore

/-! ## Ties and their inverses -/

/-- The tie that leads back, unless a tie can only be followed one way: a top concept does not name
its schemes apart from others. -/
def Tie.inverse? : Tie → Option Tie
  | .broader => some .narrower
  | .narrower => some .broader
  | .members => some .inCollections
  | .inCollections => some .members
  | .inSchemes => some .schemeMembers
  | .schemeMembers => some .inSchemes
  | .topConcepts => none

theorem Linked.mem_along {kinds : ResourceId → Kind} {links : ResourceId → Links}
    (h : Linked kinds links) {tie inverse : Tie} (hinverse : tie.inverse? = some inverse)
    (a b : ResourceId) : b ∈ (links a).along tie ↔ a ∈ (links b).along inverse := by
  cases tie <;> cases hinverse
  case broader => exact (h.narrower_iff b a).symm
  case narrower => exact h.narrower_iff a b
  case members => exact h.member_iff a b
  case inSchemes => exact (h.schemeMember_iff b a).symm
  case inCollections => exact (h.member_iff b a).symm
  case schemeMembers => exact h.schemeMember_iff a b

/-! ## Graphs that cannot be told apart -/

/-- Two graphs that cannot be told apart through nodes: they have resources for the same nodes, of
the same kinds, related in the same ways, with the same member lists and orders. -/
structure Mirrors (g g' : ResourceGraph) : Prop where
  found : ∀ n, (g'.lookup n).isSome = (g.lookup n).isSome
  kindAt : ∀ n, g'.kindAt n = g.kindAt n
  relates : ∀ tie m n, g'.Relates tie m n ↔ g.Relates tie m n
  headAt : ∀ n, g'.headAt n = g.headAt n
  orderAt : ∀ n, g'.orderAt n = g.orderAt n

namespace ResourceGraph

variable {g g' : ResourceGraph} {m n : Node}

/-- What one tie relates, its inverse relates the other way round. -/
theorem relates_inverse (h : Sound g) {tie inverse : Tie} (hinverse : tie.inverse? = some inverse) :
    g.Relates tie m n ↔ g.Relates inverse n m := by
  constructor
  · rintro ⟨i, j, hm, hn, hrelated⟩
    exact ⟨j, i, hn, hm, (h.linked.mem_along hinverse i j).1 hrelated⟩
  · rintro ⟨i, j, hn, hm, hrelated⟩
    exact ⟨j, i, hm, hn, (h.linked.mem_along hinverse j i).2 hrelated⟩

theorem Unread.orderAt (h : g.Unread) : g.orderAt n = none := by
  unfold ResourceGraph.orderAt
  cases g.lookup n with
  | none => rfl
  | some i => rw [Option.bind_some, h i, Option.map_none]

/-- Graphs that know the same cannot be told apart, as long as no orders are read. -/
theorem mirrors_of_knows (h : Sound g) (h' : Sound g') (hunread : g.Unread) (hunread' : g'.Unread)
    (hsame : ∀ fact, g'.Knows fact ↔ g.Knows fact) : Mirrors g g' where
  found := fun n => Bool.eq_iff_iff.2 (hsame (.named n))
  kindAt := fun n => Kind.eq_of_isA_iff fun k => hsame (.kind n k)
  relates := fun tie m n => by
    cases tie with
    | narrower => exact hsame (.narrower m n)
    | broader =>
      rw [relates_inverse h' rfl, relates_inverse h rfl]
      exact hsame (.narrower n m)
    | schemeMembers => exact hsame (.inScheme n m)
    | inSchemes =>
      rw [relates_inverse h' rfl, relates_inverse h rfl]
      exact hsame (.inScheme m n)
    | topConcepts => exact hsame (.topConcept n m)
    | members => exact hsame (.member m n)
    | inCollections =>
      rw [relates_inverse h' rfl, relates_inverse h rfl]
      exact hsame (.member n m)
  headAt := fun n => Option.ext fun head => hsame (.list n head)
  orderAt := fun n => by rw [hunread.orderAt, hunread'.orderAt]

/-- What is kept can be told through nodes. -/
theorem keeps_eq (h : Indexed g) : g.keeps n =
    ((g.lookup n).isSome && (!g.configuration.filtersByType || (g.kindAt n).isKnown)) := by
  unfold keeps
  cases hn : g.lookup n with
  | none => rfl
  | some i =>
    obtain ⟨r, hr, _⟩ := lookup_eq_some h hn
    rw [kindAt_eq hn, kindOf_eq hr]
    simp [hr, retains]

end ResourceGraph

namespace Mirrors

open ResourceGraph

variable {g g' : ResourceGraph}

theorem keeps (h : Mirrors g g') (hsound : Sound g) (hsound' : Sound g')
    (hconfiguration : g'.configuration = g.configuration) (n : Node) :
    g'.keeps n = g.keeps n := by
  rw [keeps_eq hsound.indexed, keeps_eq hsound'.indexed, h.found, h.kindAt, hconfiguration]

/-- The same orders are read from the same lists. -/
theorem readMemberLists (h : Mirrors g g') (hsound : Sound g) (hsound' : Sound g')
    (hunread : g.Unread) (hunread' : g'.Unread)
    (hlists : ∀ owner head, (g'.cells.resolve owner head).elements =
      (g.cells.resolve owner head).elements) (n : Node) :
    g'.readMemberLists.orderAt n = g.readMemberLists.orderAt n := by
  refine Option.ext fun elements => ?_
  rw [orderAt_readMemberLists hsound hunread, orderAt_readMemberLists hsound' hunread']
  simp only [h.kindAt, h.headAt, h.relates, hlists]

/-- Graphs that cannot be told apart cannot be told apart when they are finished either. -/
theorem completed (h : Mirrors g g') (hsound : Sound g) (hsound' : Sound g')
    (hconfiguration : g'.configuration = g.configuration) (hunread : g.Unread)
    (hunread' : g'.Unread)
    (hlists : ∀ owner head, (g'.cells.resolve owner head).elements =
      (g.cells.resolve owner head).elements) : Mirrors g.completed g'.completed := by
  have hkept := h.keeps hsound hsound' hconfiguration
  have hfound : ∀ n, (g'.completed.lookup n).isSome = (g.completed.lookup n).isSome := fun n => by
    rw [isSome_lookup_completed hsound', isSome_lookup_completed hsound, hkept]
  -- what is not kept has neither a list nor an order
  have hdropped : ∀ {n}, ¬ g.keeps n = true →
      g.completed.lookup n = none ∧ g'.completed.lookup n = none := by
    intro n hn
    rw [← isSome_lookup_completed hsound] at hn
    have habsent := Option.not_isSome_iff_eq_none.1 hn
    exact ⟨habsent, Option.not_isSome_iff_eq_none.1 (by rwa [hfound])⟩
  refine ⟨hfound, fun n => ?_, fun tie m n => ?_, fun n => ?_, fun n => ?_⟩
  · rw [kindAt_completed hsound', kindAt_completed hsound, h.kindAt]
  · rw [relates_completed hsound', relates_completed hsound, h.relates, h.kindAt, h.kindAt, hkept,
      hkept]
  · by_cases hn : g.keeps n = true
    · rw [headAt_completed hsound' (by rwa [hkept]), headAt_completed hsound hn, h.headAt]
    · simp [ResourceGraph.headAt, hdropped hn]
  · by_cases hn : g.keeps n = true
    · rw [orderAt_completed hsound' (by rwa [hkept]), orderAt_completed hsound hn,
        h.readMemberLists hsound hsound' hunread hunread' hlists]
      simp only [h.kindAt, hkept]
    · simp [ResourceGraph.orderAt, hdropped hn]

end Mirrors

/-! ## Streams with the same statements -/

/-- Streams with the same statements let graphs know the same, if one records no conflict. -/
theorem ResourceGraph.knows_unordered {c : Configuration} {triples others : List Triple}
    {g g' : ResourceGraph} (hsame : ∀ t, t ∈ others ↔ t ∈ triples)
    (htaken : (new c).ingestAll triples = .ok g) (htaken' : (new c).ingestAll others = .ok g')
    (hquiet : ¬ g.Conflicted) : ¬ g'.Conflicted ∧ ∀ fact, g'.Knows fact ↔ g.Knows fact := by
  have hfacts : ∀ fact, fact ∈ others.flatMap (factsOf c) ↔ fact ∈ triples.flatMap (factsOf c) := by
    intro fact
    simp only [List.mem_flatMap, hsame]
  have hfree := (ingestAll_describes htaken).clashFree hquiet
  obtain ⟨_, hknown⟩ := (ingestAll_describes htaken).of_clashFree hfree
  obtain ⟨hquiet', hknown'⟩ := (ingestAll_describes htaken').of_clashFree fun a ha b hb =>
    hfree a ((hfacts a).1 ha) b ((hfacts b).1 hb)
  exact ⟨hquiet', fun fact => by rw [hknown', hknown, hfacts]⟩

/-- Graphs that have taken in the same statements cannot be told apart when they are finished. -/
theorem ResourceGraph.mirrors_completed {c : Configuration} {triples others : List Triple}
    {g g' : ResourceGraph} (hsame : ∀ t, t ∈ others ↔ t ∈ triples)
    (htaken : (new c).ingestAll triples = .ok g) (htaken' : (new c).ingestAll others = .ok g')
    (hquiet : ¬ g.Conflicted) : Mirrors g.completed g'.completed := by
  have hreachable := (Reachable.new c).ingestAll htaken
  have hreachable' := (Reachable.new c).ingestAll htaken'
  obtain ⟨_, hknown⟩ := knows_unordered hsame htaken htaken' hquiet
  obtain ⟨hconfiguration, hopen⟩ := ingestAll_keeps htaken
  obtain ⟨hconfiguration', hopen'⟩ := ingestAll_keeps htaken'
  have hunread := hreachable.lists.2.2 hopen
  have hunread' := hreachable'.lists.2.2 hopen'
  -- lists are read from cells, whose values are known
  have hlists : ∀ owner head, (g'.cells.resolve owner head).elements =
      (g.cells.resolve owner head).elements := CellStore.elements_congr fun cell slot =>
    Option.ext fun value => hknown (.cell cell slot value)
  exact (mirrors_of_knows hreachable.sound hreachable'.sound hunread hunread' hknown).completed
    hreachable.sound hreachable'.sound (hconfiguration'.trans hconfiguration.symm) hunread hunread'
      hlists

/-- The order and the repetition of statements cannot be told from the finished graph. If one stream
leads to no conflict of kinds or lists, then no stream with the same statements does, and the
finished graphs are the same when they are read through nodes. -/
theorem ingest_unordered (c : Configuration) (triples others : List Triple)
    (hsame : ∀ t, t ∈ others ↔ t ∈ triples) :
    ∃ g g', (ResourceGraph.new c).ingestAll triples = .ok g ∧
      (ResourceGraph.new c).ingestAll others = .ok g' ∧
      (¬ g.Conflicted → ¬ g'.Conflicted ∧
        ∃ f f', g.finish = .ok f ∧ g'.finish = .ok f' ∧ Mirrors f f') := by
  obtain ⟨g, htaken, _, _, hopen, _⟩ := ResourceGraph.exists_ingestAll triples (Sound.new c) rfl
  obtain ⟨g', htaken', _, _, hopen', _⟩ := ResourceGraph.exists_ingestAll others (Sound.new c) rfl
  refine ⟨g, g', htaken, htaken', fun hquiet => ?_⟩
  obtain ⟨hquiet', _⟩ := ResourceGraph.knows_unordered hsame htaken htaken' hquiet
  exact ⟨hquiet', g.completed, g'.completed, ResourceGraph.finish_eq hopen,
    ResourceGraph.finish_eq hopen', ResourceGraph.mirrors_completed hsame htaken htaken' hquiet⟩

/-- Statements about an ordered collection with its list. -/
def listStatements : List Triple := [
  ⟨.iri "urn:k", "http://www.w3.org/2004/02/skos/core#memberList", .node (.blank "l")⟩,
  ⟨.iri "urn:k", "http://www.w3.org/2004/02/skos/core#member", .node (.iri "urn:a")⟩,
  ⟨.blank "l", Rdf.firstIri, .node (.iri "urn:a")⟩,
  ⟨.blank "l", Rdf.restIri, .node (.iri Rdf.nilIri)⟩]

theorem ingest_unordered_lists :
    (∀ t, t ∈ listStatements.reverse ++ listStatements ↔ t ∈ listStatements) ∧
      ∃ g g', (ResourceGraph.new { collections := true }).ingestAll listStatements = .ok g ∧
        (ResourceGraph.new { collections := true }).ingestAll
          (listStatements.reverse ++ listStatements) = .ok g' ∧
        ¬ g.Conflicted ∧ ¬ g'.Conflicted ∧
        ∃ f f', g.finish = .ok f ∧ g'.finish = .ok f' ∧ Mirrors f f' := by
  have hsame : ∀ t, t ∈ listStatements.reverse ++ listStatements ↔ t ∈ listStatements := by simp
  obtain ⟨g, g', htaken, htaken', hunordered⟩ := ingest_unordered { collections := true }
    listStatements (listStatements.reverse ++ listStatements) hsame
  have hnoIssues : ((ResourceGraph.new { collections := true }).ingestAll listStatements).map
      (·.issues) = .ok [] := by decide +kernel
  have hquiet : ¬ g.Conflicted := by
    rintro ⟨i, hmem, _⟩
    rw [htaken] at hnoIssues
    rw [show g.issues = [] from Except.ok.inj hnoIssues] at hmem
    cases hmem
  exact ⟨hsame, g, g', htaken, htaken', hquiet, hunordered hquiet⟩

end Thesaurus
