import Thesaurus.Proofs.Graph.Lists

/-!
# Coherent graphs

What can be relied on in a graph, however its statements contradict each other: resources are where
their ids say, links lead to resources, every relation is stored at both of its ends, and the kinds
of the ends fit it.

- `ResourceGraph.Coherent`: what holds of a graph at any time.
- `Sound.coherent`: sound graphs are coherent.
- `stays_coherent`: graphs are coherent before and after they are finished.
-/

namespace Thesaurus

open Rdf (Node Triple)

/-- What holds of a graph at any time. A resource knows its id; just the nodes that have a resource
are found, at its id, and different nodes at different ids. Links lead to resources and are stored
at both ends, whose kinds fit them, and only ordered collections have member lists. -/
structure ResourceGraph.Coherent (g : ResourceGraph) : Prop where
  id_eq : ∀ (i : ResourceId) r, g.resources[i]? = some r → r.id = i
  lookup_iff : ∀ n i, g.lookup n = some i ↔ ∃ r, g.resources[i]? = some r ∧ r.node = n
  lookup_inj : ∀ m n i, g.lookup m = some i → g.lookup n = some i → m = n
  in_range : ∀ (i : ResourceId) r, g.resources[i]? = some r → ∀ id ∈ r.links.ids, id < g.size
  linked : Linked g.kindOf g.linksOf
  listsOrdered : g.ListsOrdered

namespace Sound

variable {g : ResourceGraph} {i : ResourceId} {n : Node} {r : Resource}

theorem coherent (h : Sound g) (hlists : g.ListsOrdered) : g.Coherent where
  id_eq := h.indexed.id_eq
  lookup_iff := h.indexed.lookup_iff
  lookup_inj := fun _ _ _ => ResourceGraph.eq_of_lookup h.indexed
  in_range := fun _ _ hr => h.ids_lt hr
  linked := h.linked
  listsOrdered := hlists

end Sound

/-- Whatever statements are taken in, the graph is coherent before and after it is finished. When it
is finished, only concepts and collections are members, and orders list each member once. -/
theorem stays_coherent (c : Configuration) (triples : List Triple) :
    ∃ g f, (ResourceGraph.new c).ingestAll triples = .ok g ∧ g.finish = .ok f ∧
      g.Coherent ∧ f.Coherent ∧ f.MembersFit ∧ f.OrdersExact := by
  obtain ⟨g, htaken, hsound, _, hopen, _⟩ :=
    ResourceGraph.exists_ingestAll triples (Sound.new c) rfl
  have hreachable : Reachable g := (Reachable.new c).ingestAll htaken
  have hfinished := ResourceGraph.finish_eq hopen
  have hreachableFinished : Reachable g.completed := hreachable.finish hfinished
  exact ⟨g, g.completed, htaken, hfinished, hsound.coherent hreachable.lists.1,
    hreachableFinished.sound.coherent hreachableFinished.lists.1,
    ResourceGraph.membersFit_completed hsound, hreachableFinished.ordersExact⟩

end Thesaurus
