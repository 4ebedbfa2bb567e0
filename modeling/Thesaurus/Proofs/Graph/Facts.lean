import Thesaurus.Proofs.Graph.Reading

/-!
# What statements say

Every statement says a few things about nodes, whatever was said before. A graph knows just what its
statements have said, or it has recorded that two of them contradict each other.

- `Fact`, `factsOf`: what a statement says.
- `Fact.Clashes`: which facts contradict each other.
- `ResourceGraph.Knows`, `ResourceGraph.Conflicted`: what a graph knows, and whether it has recorded
  a contradiction.
- `Learns`, `Takes`: what a graph makes of facts.
-/

namespace Thesaurus

open Rdf (Literal Node Object Predicate Relation TextProperty Triple)

/-! ## Facts -/

/-- What statements can say: that there is a resource, of a kind; that one concept is narrower than
another; that a resource is in a scheme, as a top concept or not, or in a collection; where the
member list of a collection starts; and that a list cell has a value. -/
inductive Fact where
  | named (n : Node)
  | kind (n : Node) (kind : Kind)
  | narrower (upper lower : Node)
  | inScheme (member scheme : Node)
  | topConcept (member scheme : Node)
  | member (collection member : Node)
  | list (collection head : Node)
  | cell (cell : Node) (slot : CellSlot) (value : Node)
deriving DecidableEq, Repr

/-- Whether what is of kind `k` is of kind `l`: ordered collections are collections. -/
def Kind.isA (k l : Kind) : Bool :=
  k.isKnown && (k == l || (k == orderedCollection && l == collection))

/-- Whether nothing can be of both kinds. -/
def Kind.clashes (k l : Kind) : Bool :=
  k != l && !(k.isCollection && l.isCollection)

namespace Kind

/-- A kind that is refused clashes with the present one. -/
theorem clashes_of_conflict {k l : Kind} (h : k.transition l = .conflict) :
    k.isKnown = true ∧ l.clashes k = true := by
  cases k <;> cases l <;> simp_all [transition, clashes, isKnown, isCollection]

/-- What a resource is after a request: what it was, and what was asked. -/
theorem isA_after {k l : Kind} (hl : l.isKnown = true) (h : k.transition l ≠ .conflict)
    (m : Kind) : (k.after l).isA m = true ↔ k.isA m = true ∨ l.isA m = true := by
  cases k <;> cases l <;> first
    | exact absurd hl (by decide)
    | exact absurd rfl h
    | (cases m <;> decide)

theorem not_clashes_of_isA {k l m : Kind} (hl : k.isA l = true) (hm : k.isA m = true) :
    l.clashes m = false := by
  cases k <;> cases l <;> cases m <;> first | rfl | contradiction

theorem eq_of_isA_iff {k l : Kind} (h : ∀ m, k.isA m = true ↔ l.isA m = true) : k = l := by
  have hself := h k
  have hother := h l
  cases k <;> cases l <;> first | rfl | (revert hself hother; decide)

end Kind

namespace Fact

/-- Whether two facts contradict each other: a resource cannot be of kinds that clash, and heads of
member lists and values of cells are unique. -/
def Clashes : Fact → Fact → Prop
  | kind n k, kind n' l => n = n' ∧ k.clashes l = true
  | list n h, list n' h' => n = n' ∧ h ≠ h'
  | cell n s v, cell n' s' v' => n = n' ∧ s = s' ∧ v ≠ v'
  | _, _ => False

/-- That a resource is of a kind. An ordered collection is a collection too. -/
def kinds (n : Node) (k : Kind) : List Fact :=
  if k = .orderedCollection then [kind n .orderedCollection, kind n .collection] else [kind n k]

/-- That one concept is narrower than another. -/
def hierarchy (upper lower : Node) : List Fact :=
  [named upper, named lower] ++ kinds upper .concept ++ kinds lower .concept ++
    [narrower upper lower]

/-- That a resource is in a scheme, as a top concept or not. -/
def membership (m scheme : Node) (top : Bool) : List Fact :=
  [named scheme, named m] ++ kinds scheme .conceptScheme ++
    (if top then kinds m .concept else []) ++
    (inScheme m scheme :: if top then [topConcept m scheme] else [])

theorem mem_kinds {n m : Node} {k l : Kind} (hk : k.isKnown = true) :
    kind m l ∈ kinds n k ↔ m = n ∧ k.isA l = true := by
  unfold kinds
  cases k <;> cases l <;> simp_all [Kind.isA, Kind.isKnown]

/-- Nothing else is said by a kind. -/
theorem exists_of_mem_kinds {fact : Fact} {n : Node} {k : Kind} (h : fact ∈ kinds n k) :
    ∃ l, fact = kind n l := by
  unfold kinds at h
  split at h
  · rcases List.mem_cons.1 h with rfl | h
    · exact ⟨_, rfl⟩
    · exact ⟨_, List.mem_singleton.1 h⟩
  · exact ⟨_, List.mem_singleton.1 h⟩

end Fact

/-- What a relation between two nodes says. -/
def relationFacts (c : Configuration) (subject : Node) (relation : Relation) (object : Node) :
    List Fact :=
  if !ResourceGraph.considers c relation then []
  else
    match relation with
    | .type =>
      match ResourceGraph.classKind? c object with
      | none => []
      | some kind => .named subject :: Fact.kinds subject kind
    | .broader => Fact.hierarchy object subject
    | .narrower => Fact.hierarchy subject object
    | .inScheme => Fact.membership subject object false
    | .topConceptOf => Fact.membership subject object true
    | .hasTopConcept => Fact.membership object subject true
    | .member =>
      [.named subject, .named object] ++ Fact.kinds subject .collection ++ [.member subject object]
    | .memberList =>
      [.named subject] ++ Fact.kinds subject .orderedCollection ++ [.list subject object]
    | .listFirst => [.cell subject .first object]
    | .listRest => [.cell subject .rest object]

/-- What a statement says. Texts only say that there is a resource. -/
def factsOf (c : Configuration) (t : Triple) : List Fact :=
  match Predicate.ofIri? t.predicate, t.object with
  | some (.relation r), .node object => relationFacts c t.subject r object
  | some (.text _), .literal _ => [.named t.subject]
  | _, _ => []

namespace ResourceGraph

/-- What a graph knows. -/
def Knows (g : ResourceGraph) : Fact → Prop
  | .named n => (g.lookup n).isSome = true
  | .kind n k => (g.kindAt n).isA k = true
  | .narrower upper lower => g.Relates .narrower upper lower
  | .inScheme member scheme => g.Relates .schemeMembers scheme member
  | .topConcept member scheme => g.Relates .topConcepts scheme member
  | .member collection member => g.Relates .members collection member
  | .list collection head => g.headAt collection = some head
  | .cell cell slot value => ((g.cells.cell? cell).getD {}).get slot = some value

/-- Whether it was recorded that statements contradict each other on a kind or on a list. -/
def Conflicted (g : ResourceGraph) : Prop :=
  ∃ i ∈ g.issues, i.kind = .typeConflict ∨ i.kind = .listConflict

variable {g g' g₁ : ResourceGraph} {i j : ResourceId} {m n : Node} {r : Resource} {a b : Fact}
  {facts : List Fact}

/-- What a graph knows is free of contradictions. -/
theorem Knows.not_clashes (ha : g.Knows a) (hb : g.Knows b) : ¬ a.Clashes b := by
  cases a <;> cases b <;> intro hclash <;> first | exact hclash | skip
  · obtain ⟨rfl, hclash⟩ := hclash
    rw [Kind.not_clashes_of_isA ha hb] at hclash
    cases hclash
  · obtain ⟨rfl, hne⟩ := hclash
    exact hne (Option.some.inj (ha.symm.trans hb))
  · obtain ⟨rfl, rfl, hne⟩ := hclash
    exact hne (Option.some.inj (ha.symm.trans hb))

end ResourceGraph

/-! ## Learning facts -/

/-- One graph knows just some facts more than another, and no conflict was recorded. -/
structure Learns (g : ResourceGraph) (facts : List Fact) (g' : ResourceGraph) : Prop where
  knows_iff : ∀ fact, g'.Knows fact ↔ g.Knows fact ∨ fact ∈ facts
  conflicted_iff : g'.Conflicted ↔ g.Conflicted

/-- A graph takes in facts: it learns them, or records that they contradict what is known. -/
def Takes (g : ResourceGraph) (facts : List Fact) (g' : ResourceGraph) : Prop :=
  Learns g facts g' ∨
    g'.Conflicted ∧ ∃ a ∈ facts, ∃ b, (g.Knows b ∨ b ∈ facts) ∧ a.Clashes b

namespace Learns

variable {g g₁ g₂ : ResourceGraph} {facts more : List Fact}

theorem trans (h : Learns g facts g₁) (hnext : Learns g₁ more g₂) :
    Learns g (facts ++ more) g₂ where
  knows_iff := fun fact => by
    rw [hnext.knows_iff, h.knows_iff, List.mem_append, or_assoc]
  conflicted_iff := hnext.conflicted_iff.trans h.conflicted_iff

/-- Facts that are known already can be learned again. -/
theorem again (h : ∀ fact ∈ facts, g.Knows fact) : Learns g facts g :=
  ⟨fun fact => ⟨.inl, fun hknown => hknown.elim id (h fact)⟩, Iff.rfl⟩

end Learns

end Thesaurus
