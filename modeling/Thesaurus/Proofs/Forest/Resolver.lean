import Thesaurus.Forest.Resolver
import Thesaurus.Proofs.Forest.Gathering
import Thesaurus.Proofs.Hierarchy.Cycles

/-!
# Deputies in a context

What a resolver answers does not depend on what it was asked before, since what it keeps is what it
would make anew. Its deputies have the hierarchy inside the scheme or collection. Where this has no
cycle, going up from a concept ends at one without a broader concept inside, so that all concepts
are below the roots.

- `Resolver.Faithful`: whether the deputies that are kept are those that would be made.
- `Resolver.deputy_spec`, `Resolver.rootsAmong_spec`: what a faithful resolver answers.
- `Resolver.Call`, `Resolver.after`: requests, and the resolver after some of them.
- `Resolver.StepsDown`: one step down, by the deputies of a resolver.
- `ResourceGraph.Represents`, `ResourceGraph.NarrowerInside`: deputies and the hierarchy inside a
  scheme or collection.
- `ResourceGraph.exists_head_above`: where there is no cycle, each concept is below a root.
- `contexts_rooted`: all this as one statement about resolvers.
-/

namespace Thesaurus

open Relation (ReflTransGen TransGen)

namespace Resolver

variable {g : ResourceGraph} {s : Resolver} {ids : List ResourceId}

/-! ## Answers -/

/-- Whether the deputies that are kept are those that would be made anew. -/
def Faithful (g : ResourceGraph) (s : Resolver) : Prop :=
  ∀ id deputy, s.made.lookup id = some deputy → s.context.deputy g id = .ok deputy

/-- A faithful resolver answers with the deputy that would be made anew. -/
theorem deputy_spec (h : s.Faithful g) (id : ResourceId) :
    ∃ next, s.deputy g id = (next, s.context.deputy g id) ∧ next.context = s.context ∧
      next.Faithful g := by
  unfold deputy
  cases hkept : s.made.lookup id with
  | some deputy => exact ⟨s, by rw [h id deputy hkept], rfl, h⟩
  | none =>
    cases hfresh : s.context.deputy g id with
    | error d => exact ⟨s, rfl, rfl, h⟩
    | ok deputy =>
      refine ⟨_, rfl, rfl, fun other found hfound => ?_⟩
      rw [List.lookup_cons] at hfound
      split at hfound
      · next hsame =>
        cases hfound
        rwa [beq_iff_eq.1 hsame]
      · exact h other found hfound

/-- A deputy is made for every resource. -/
theorem exists_deputy {id : ResourceId} (c : Context) (hid : id < g.size) :
    ∃ deputy, c.deputy g id = .ok deputy ∧ deputy.broader = c.restrict (g.linksOf id).broader ∧
      deputy.narrower = c.restrict (g.linksOf id).narrower := by
  obtain ⟨r, hfound⟩ := ResourceGraph.exists_resource hid
  refine ⟨c.deputyOf r, ?_, ?_, ?_⟩
  · rw [Context.deputy, ResourceGraph.resource_eq hfound]
  · rw [ResourceGraph.linksOf_eq hfound]
    rfl
  · rw [ResourceGraph.linksOf_eq hfound]
    rfl

/-- A faithful resolver finds the roots among the listed concepts. -/
theorem rootsAmong_spec (h : s.Faithful g) (hids : ∀ id ∈ ids, id < g.size) :
    ∃ next, s.rootsAmong g ids =
        (next, .ok (ids.filter fun id => s.context.isTop id || !s.context.hasBroader g id)) ∧
      next.context = s.context ∧ next.Faithful g := by
  induction ids generalizing s with
  | nil => exact ⟨s, rfl, rfl, h⟩
  | cons id rest ih =>
    obtain ⟨hfirst, hothers⟩ := List.forall_mem_cons.1 hids
    rw [rootsAmong, List.filter_cons]
    cases htop : s.context.isTop id with
    | true =>
      obtain ⟨last, hfound, hcontext, hfaithful⟩ := ih h hothers
      refine ⟨last, ?_, hcontext, hfaithful⟩
      simp [hfound, Except.map]
    | false =>
      obtain ⟨next, hasked, hkept, hstillFaithful⟩ := deputy_spec h id
      obtain ⟨last, hfound, hcontext, hfaithful⟩ := ih hstillFaithful hothers
      obtain ⟨deputy, hmade, hbroader, _⟩ := exists_deputy s.context hfirst
      refine ⟨last, ?_, hcontext.trans hkept, hfaithful⟩
      rw [hkept] at hfound
      cases habove : deputy.broader.isEmpty <;>
        simp [hasked, hmade, hfound, habove, Context.hasBroader, ← hbroader, Except.map]

/-! ## Requests -/

/-- What can be asked of a resolver: the deputy of the resource with an id, which may not exist, and
the concepts shown directly below the context. -/
inductive Call where
  | deputy (id : ResourceId)
  | roots

/-- The resolver after a request. -/
def perform (g : ResourceGraph) (s : Resolver) : Call → Resolver
  | .deputy id => (s.deputy g id).1
  | .roots => (s.roots g).1

/-- The resolver after some requests. -/
def after (g : ResourceGraph) (s : Resolver) (calls : List Call) : Resolver :=
  calls.foldl (perform g) s

/-- Whether a resolver serves a context whose concepts exist, and keeps only deputies as they would
be made anew. -/
structure Serves (g : ResourceGraph) (c : Context) (s : Resolver) : Prop where
  context_eq : s.context = c
  faithful : s.Faithful g
  members_lt : ∀ id ∈ c.members, id < g.size

namespace Serves

variable {c : Context}

theorem deputy (h : s.Serves g c) (id : ResourceId) : (s.deputy g id).2 = c.deputy g id := by
  obtain ⟨_, hasked, _⟩ := deputy_spec h.faithful id
  rw [hasked, h.context_eq]

/-- The roots are found, and the resolver stays faithful. -/
theorem roots_spec (h : s.Serves g c) :
    ∃ next, s.roots g = (next, .ok (c.roots g)) ∧ next.Serves g c := by
  have hinside : ∀ id ∈ s.context.members.toList, id < g.size := by
    rw [h.context_eq]
    exact h.members_lt
  obtain ⟨next, hasked, hcontext, hfaithful⟩ := rootsAmong_spec h.faithful hinside
  refine ⟨next, ?_, hcontext.trans h.context_eq, hfaithful, h.members_lt⟩
  rw [Resolver.roots, hasked, h.context_eq]
  rfl

theorem roots (h : s.Serves g c) : (s.roots g).2 = .ok (c.roots g) := by
  obtain ⟨_, hasked, _⟩ := h.roots_spec
  rw [hasked]

theorem perform (h : s.Serves g c) (call : Call) : (s.perform g call).Serves g c := by
  cases call with
  | deputy id =>
    obtain ⟨next, hasked, hcontext, hfaithful⟩ := deputy_spec h.faithful id
    rw [Resolver.perform, hasked]
    exact ⟨hcontext.trans h.context_eq, hfaithful, h.members_lt⟩
  | roots =>
    obtain ⟨next, hasked, hserves⟩ := h.roots_spec
    rw [Resolver.perform, hasked]
    exact hserves

theorem after (h : s.Serves g c) (calls : List Call) : (s.after g calls).Serves g c := by
  induction calls generalizing s with
  | nil => exact h
  | cons call rest ih => exact ih (h.perform call)

end Serves

/-- One step down: to a narrower concept of a deputy. -/
def StepsDown (g : ResourceGraph) (s : Resolver) (a b : ResourceId) : Prop :=
  ∃ deputy, (s.deputy g a).2 = .ok deputy ∧ b ∈ deputy.narrower

end Resolver

namespace ResourceGraph

variable {g : ResourceGraph} {k : Resource} {a b m id : ResourceId} {deputy other : Deputy}

/-! ## The hierarchy inside a context -/

/-- Whether a deputy has those of the broader and narrower concepts of a concept that are inside a
scheme or collection. -/
structure Represents (g : ResourceGraph) (k : Resource) (id : ResourceId) (deputy : Deputy) :
    Prop where
  broader : ∀ b, b ∈ deputy.broader ↔ b ∈ (g.linksOf id).broader ∧ g.Contains k b
  narrower : ∀ b, b ∈ deputy.narrower ↔ b ∈ (g.linksOf id).narrower ∧ g.Contains k b

/-- Whether one concept is narrower than another and both are inside a scheme or collection. -/
def NarrowerInside (g : ResourceGraph) (k : Resource) (a b : ResourceId) : Prop :=
  g.Contains k a ∧ g.Contains k b ∧ g.Narrower a b

theorem Contains.lt_size (h : g.Contains k id) : id < g.size := by
  refine lt_size_of_kindOf ?_
  rw [h.2]
  decide

/-- The deputy of a concept without an order around it has the hierarchy inside. -/
theorem exists_represents (hunordered : k.hasOrder = false) (hid : id < g.size) :
    ∃ deputy, (g.contextOf k).deputy g id = .ok deputy ∧ g.Represents k id deputy := by
  obtain ⟨deputy, hmade, hbroader, hnarrower⟩ := Resolver.exists_deputy (g.contextOf k) hid
  refine ⟨deputy, hmade, fun b => ?_, fun b => ?_⟩
  · rw [hbroader, mem_restrict hunordered]
  · rw [hnarrower, mem_restrict hunordered]

/-- Inside, deputies are narrower than each other when those are broader. -/
theorem Represents.narrower_iff (h : Sound g) (ha : g.Contains k a) (hb : g.Contains k b)
    (hdeputy : g.Represents k a deputy) (hother : g.Represents k b other) :
    b ∈ deputy.narrower ↔ a ∈ other.broader := by
  rw [hdeputy.narrower, hother.broader, h.linked.narrower_iff]
  exact ⟨fun hinside => ⟨hinside.1, ha⟩, fun hinside => ⟨hinside.1, hb⟩⟩

/-- The roots of a context are the concepts inside that are at the head of the hierarchy there. -/
theorem mem_roots_contextOf (h : Sound g) (hk : g.Holds k) (hunordered : k.hasOrder = false) :
    id ∈ (g.contextOf k).roots g ↔ g.Contains k id ∧ g.Heads k id := by
  rw [Context.roots, List.mem_filter, ← IdSet.mem_def, mem_contextOf, Bool.or_eq_true,
    Bool.not_eq_true', ← Traversal.heads_iff h hk hunordered]
  rfl

/-- Without cycles inside, going up from a concept ends at the head of the hierarchy. -/
theorem exists_head_above (h : Sound g) (hacyclic : ∀ a, ¬ TransGen (g.NarrowerInside k) a a)
    (hm : g.Contains k m) :
    ∃ root, g.Contains k root ∧ g.Heads k root ∧ ReflTransGen (g.NarrowerInside k) root m := by
  have hwf : WellFounded (g.NarrowerInside k) :=
    wellFounded_of_acyclic g.size (fun a b hinside => hinside.1.lt_size) hacyclic
  induction m using hwf.induction with
  | _ m ih =>
    by_cases hinner : ∃ b ∈ (g.linksOf m).broader, g.Contains k b
    · obtain ⟨b, hbroader, hinside⟩ := hinner
      have hstep : g.NarrowerInside k b m := ⟨hinside, hm, (h.linked.narrower_iff b m).2 hbroader⟩
      obtain ⟨root, hwithin, hhead, hdown⟩ := ih b hstep hinside
      exact ⟨root, hwithin, hhead, hdown.tail hstep⟩
    · exact ⟨m, hm, .inr fun b hb hinside => hinner ⟨b, hb, hinside⟩, .refl⟩

end ResourceGraph

namespace Resolver

variable {g : ResourceGraph} {k : Resource}

/-! ## Resolvers of schemes and collections -/

/-- Whether a resolver, asked for roots and deputies, shows the hierarchy inside a scheme or
collection. Deputies are narrower than each other when those are broader, the roots are the concepts
at the head, and without cycles inside, steps down from the roots lead to all concepts inside. -/
structure ShowsInside (g : ResourceGraph) (k : Resource) (s : Resolver) (roots : List ResourceId) :
    Prop where
  represents : ∀ a, g.Contains k a →
    ∃ deputy, (s.deputy g a).2 = .ok deputy ∧ g.Represents k a deputy
  converse : ∀ a b deputy other, g.Contains k a → g.Contains k b →
    (s.deputy g a).2 = .ok deputy → (s.deputy g b).2 = .ok other →
      (b ∈ deputy.narrower ↔ a ∈ other.broader)
  mem_roots : ∀ id, id ∈ roots ↔ g.Contains k id ∧ g.Heads k id
  reaches : (∀ a, ¬ TransGen (g.NarrowerInside k) a a) → ∀ m, g.Contains k m →
    ∃ root ∈ roots, ReflTransGen (s.StepsDown g) root m

/-- A scheme or collection has a resolver that serves its context. -/
theorem exists_start (h : Sound g) (hk : g.Holds k) (hgathers : k.kind.gathers = true) :
    ∃ s, start g k.id = .ok s ∧ s.Serves g (g.contextOf k) := by
  refine ⟨{ context := g.contextOf k }, ?_, rfl, fun _ _ hkept => ?_, fun id hid => ?_⟩
  · rw [start, ResourceGraph.resource_eq hk]
    simp only [ResourceGraph.contextOf_eq h hk hgathers]
  · cases hkept
  · exact ResourceGraph.Contains.lt_size (ResourceGraph.mem_contextOf.1 hid)

theorem Serves.showsInside {s : Resolver} (hserves : s.Serves g (g.contextOf k)) (h : Sound g)
    (hk : g.Holds k) (hunordered : k.hasOrder = false) :
    s.ShowsInside g k ((g.contextOf k).roots g) := by
  have hrepresents : ∀ a, g.Contains k a →
      ∃ deputy, (s.deputy g a).2 = .ok deputy ∧ g.Represents k a deputy := by
    intro a ha
    rw [hserves.deputy a]
    exact ResourceGraph.exists_represents hunordered ha.lt_size
  refine ⟨hrepresents, fun a b deputy other ha hb hasked haskedOther => ?_, fun id => ?_, ?_⟩
  · obtain ⟨_, hsame, hinside⟩ := hrepresents a ha
    cases hasked.symm.trans hsame
    obtain ⟨_, hsameOther, hinsideOther⟩ := hrepresents b hb
    cases haskedOther.symm.trans hsameOther
    exact hinside.narrower_iff h ha hb hinsideOther
  · exact ResourceGraph.mem_roots_contextOf h hk hunordered
  · intro hacyclic m hm
    obtain ⟨root, hwithin, hhead, hdown⟩ := ResourceGraph.exists_head_above h hacyclic hm
    refine ⟨root, (ResourceGraph.mem_roots_contextOf h hk hunordered).2 ⟨hwithin, hhead⟩, ?_⟩
    refine ReflTransGen.mono (fun a b hstep => ?_) root m hdown
    obtain ⟨deputy, hasked, hinside⟩ := hrepresents a hstep.1
    exact ⟨deputy, hasked, (hinside.narrower b).2 ⟨hstep.2.2, hstep.2.1⟩⟩

end Resolver

/-- Each scheme or collection of a reachable graph has a resolver. Whatever it was asked for before,
it answers with the deputies and the roots of its context. If there is no accepted order, the
deputies of the concepts inside have the hierarchy inside, from above as from below; the roots are
the concepts inside that are declared top concepts or have no broader concept inside; and unless
the hierarchy inside has a cycle, steps down from deputy to deputy lead from the roots to every
concept inside. -/
theorem contexts_rooted {g : ResourceGraph} (hreach : Reachable g) {k : Resource} (hk : g.Holds k)
    (hgathers : k.kind.gathers = true) :
    ∃ s, Resolver.start g k.id = .ok s ∧
      (∀ calls id, ((s.after g calls).deputy g id).2 = s.context.deputy g id) ∧
      (∀ calls, ((s.after g calls).roots g).2 = .ok (s.context.roots g)) ∧
      (k.hasOrder = false → s.ShowsInside g k (s.context.roots g)) := by
  obtain ⟨s, hstarted, hserves⟩ := Resolver.exists_start hreach.sound hk hgathers
  refine ⟨s, hstarted, fun calls id => ?_, fun calls => ?_, fun hunordered => ?_⟩
  · rw [(hserves.after calls).deputy id, hserves.context_eq]
  · rw [(hserves.after calls).roots, hserves.context_eq]
  · rw [hserves.context_eq]
    exact hserves.showsInside hreach.sound hk hunordered

/-- In the second of two schemes with a concept in common, the root is the shared one, and the
others are below it. -/
theorem contexts_rooted_shared : Reachable (sharedConcept 3 4) ∧
    ∃ k, (sharedConcept 3 4).Holds k ∧ k.kind.gathers = true ∧ k.hasOrder = false ∧
      (∀ a, ¬ TransGen ((sharedConcept 3 4).NarrowerInside k) a a) ∧
      ∃ s, Resolver.start (sharedConcept 3 4) k.id = .ok s ∧
        s.context.roots (sharedConcept 3 4) = [1] ∧
        ReflTransGen (s.StepsDown (sharedConcept 3 4)) 1 4 := by
  have htaken : (ResourceGraph.new { conceptSchemes := true }).ingestAll
      (sharedStatements ["urn:b", "urn:c"]) = .ok (sharedConcept 3 4) := by decide +kernel
  have hreachable : Reachable (sharedConcept 3 4) := (Reachable.new _).ingestAll htaken
  have hholds : (sharedConcept 3 4).Holds (sharedConcept 3 4).resources[2] := rfl
  -- narrower concepts have larger ids
  have hrising : ∀ a b, (sharedConcept 3 4).Narrower a b → a < b := by
    intro a b hnarrower
    have hlisted : ∀ a < 5, ∀ b ∈ ((sharedConcept 3 4).linksOf a).narrower.toList, a < b := by
      decide
    exact hlisted a (hnarrower.lt hreachable.sound).1 b hnarrower
  have hacyclic : ∀ a, ¬ TransGen
      ((sharedConcept 3 4).NarrowerInside (sharedConcept 3 4).resources[2]) a a := by
    intro a hcycle
    have habove : a < a := Relation.transGen_minimal (fun a b hstep =>
      hrising a b hstep.2.2) a a hcycle
    exact Nat.lt_irrefl a habove
  obtain ⟨s, hstarted, _, _, hshows⟩ := contexts_rooted hreachable hholds rfl
  have hsame : Resolver.start (sharedConcept 3 4) 2 =
      .ok { context := (sharedConcept 3 4).contextOf (sharedConcept 3 4).resources[2] } := by
    decide +kernel
  cases hstarted.symm.trans hsame
  obtain ⟨root, hmem, hdown⟩ := (hshows rfl).reaches hacyclic 4 ⟨by decide, rfl⟩
  have hroots : ((sharedConcept 3 4).contextOf (sharedConcept 3 4).resources[2]).roots
      (sharedConcept 3 4) = [1] := by decide +kernel
  rw [hroots, List.mem_singleton] at hmem
  exact ⟨hreachable, _, hholds, rfl, rfl, hacyclic, _, hstarted, hroots, hmem ▸ hdown⟩

end Thesaurus
