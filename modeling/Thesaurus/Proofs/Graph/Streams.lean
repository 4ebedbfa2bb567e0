import Thesaurus.Proofs.Graph.Learning

/-!
# What a graph knows when all statements are in

A statement is taken in whole: the graph learns all that it says, or records a conflict. A graph
that recorded none therefore knows what its statements say, in whatever order they came.

- `ResourceGraph.relate_takes`, `ResourceGraph.accept_takes`: a graph takes in the facts of each
  relation and of each statement.
- `ResourceGraph.Describes`: what a graph knows after some facts.
- `ResourceGraph.ingestAll_describes`: what a graph knows when all statements are in.
-/

namespace Thesaurus

open Rdf (Node Object Predicate Relation TextProperty Triple Literal)

namespace ResourceGraph

/-! ## Relations -/

/-- Whether what is known, together with some facts, contradicts a fact. -/
def Refutes (g : ResourceGraph) (facts : List Fact) (fact : Fact) : Prop :=
  ∃ b, (g.Knows b ∨ b ∈ facts) ∧ fact.Clashes b

end ResourceGraph

open ResourceGraph

/-- A recorded conflict is all right if some of the facts contradict each other. -/
theorem Takes.of_refuted {g g' : ResourceGraph} {facts all : List Fact} {fact : Fact}
    (hconflicted : g'.Conflicted) (hrefuted : g.Refutes facts fact) (hsub : facts ⊆ all)
    (hmem : fact ∈ all) : Takes g all g' := by
  obtain ⟨b, hknown, hclash⟩ := hrefuted
  exact .inr ⟨hconflicted, fact, hmem, b, hknown.imp_right (@hsub b), hclash⟩

/-- Facts are taken in as well after something that says nothing. -/
theorem Takes.after {g g₁ g' : ResourceGraph} {facts : List Fact} (h : Takes g₁ facts g')
    (hbefore : Learns g [] g₁) : Takes g facts g' := by
  rcases h with hlearned | ⟨hconflicted, a, ha, b, hb, hclash⟩
  · exact .inl (hbefore.trans hlearned)
  · refine .inr ⟨hconflicted, a, ha, b, hb.imp_left fun hknown => ?_, hclash⟩
    exact ((hbefore.knows_iff b).1 hknown).resolve_right List.not_mem_nil

/-- A link goes on after a request that is admitted. -/
theorem if_admitted {α : Type} {fits : Bool} {stop further : α} (h : fits = true) :
    (if !fits then stop else further) = further :=
  if_neg (by simp [h])

/-- A link stops at a request that is refused. -/
theorem if_refused {α : Type} {fits : Bool} {stop further : α} (h : fits = false) :
    (if !fits then stop else further) = stop :=
  if_pos (by simp [h])

/-- What is asked of a resource is learned next, or it is refuted by what is known. -/
theorem Learns.request {g g₁ : ResourceGraph} {facts : List Fact} {n : Node} {i : ResourceId}
    (h : Learns g facts g₁) (hindexed : Indexed g₁) (hn : g₁.lookup n = some i) (requested : Kind)
    (hknown : requested.isKnown = true) (cause : Relation) :
    (g₁.admits i requested = true ∧
        Learns g (facts ++ Fact.kinds n requested) (g₁.request i requested cause)) ∨
      (g₁.admits i requested = false ∧ (g₁.request i requested cause).Conflicted ∧
        g.Refutes facts (.kind n requested)) := by
  cases hadmitted : g₁.admits i requested with
  | true => exact .inl ⟨rfl, h.trans (learns_request hindexed hn hknown hadmitted)⟩
  | false =>
    obtain ⟨b, hknown', hclash⟩ := exists_clash_of_refused hn hadmitted
    exact .inr ⟨rfl, conflicted_request hadmitted, b, (h.knows_iff b).1 hknown', hclash⟩

namespace ResourceGraph

variable {g g' : ResourceGraph} {i j : ResourceId} {m n : Node} {cause : Relation}

theorem takes_linkType (h : Sound g) {class_ : Node} {kind : Kind}
    (hkind : classKind? g.configuration class_ = some kind) (hknown : kind.isKnown = true) :
    Takes g (.named n :: Fact.kinds n kind) (g.linkType n class_) := by
  unfold linkType
  rw [hkind]
  rcases (learns_ensure h n).request h.indexed.ensure lookup_ensure_self kind hknown .type with
    ⟨_, hlearned⟩ | ⟨_, hconflicted, hrefuted⟩
  · exact .inl hlearned
  · refine Takes.of_refuted hconflicted hrefuted (by simp) ?_
    exact List.mem_cons_of_mem _ ((Fact.mem_kinds hknown).2 ⟨rfl, by simp [Kind.isA, hknown]⟩)

theorem takes_linkHierarchy (h : Sound g) (upper lower : Node) :
    Takes g (Fact.hierarchy upper lower) (g.linkHierarchy upper lower cause) := by
  unfold linkHierarchy
  extract_lets upperId g₁ lowerId g₂ upperFits g₃ lowerFits g₄
  have hnamed : Learns g ([.named upper] ++ [.named lower]) g₂ :=
    (learns_ensure h upper).trans (learns_ensure h.ensure lower)
  have hfound₂ : FindsBoth g₂ upper lower upperId lowerId := .ensure h.indexed upper lower
  have hfound₃ : FindsBoth g₃ upper lower upperId lowerId := hfound₂.request _ _
  -- the second request is made in any case, and both have to be admitted
  rcases hnamed.request hfound₂.indexed hfound₂.left .concept rfl cause with
    ⟨hfits, hlearned⟩ | ⟨hrefused, hconflicted, hrefuted⟩
  · rcases hlearned.request hfound₃.indexed hfound₃.right .concept rfl cause with
      ⟨hfits', hlearned'⟩ | ⟨hrefused, hconflicted, hrefuted⟩
    · have hboth : (upperFits && lowerFits) = true := Bool.and_eq_true_iff.2 ⟨hfits, hfits'⟩
      rw [if_pos hboth]
      have hlinked : Learns g₄ _ (g₄.narrow upperId lowerId) := learns_narrow (hfound₃.request _ _)
      exact .inl (hlearned'.trans hlinked)
    · have hnotBoth : ¬ (upperFits && lowerFits) = true := by
        rw [show lowerFits = false from hrefused, Bool.and_false]
        decide
      rw [if_neg hnotBoth]
      refine Takes.of_refuted hconflicted hrefuted ?_ ?_ <;> simp [Fact.hierarchy, Fact.kinds]
  · have hnotBoth : ¬ (upperFits && lowerFits) = true := by
      rw [show upperFits = false from hrefused, Bool.false_and]
      decide
    rw [if_neg hnotBoth]
    refine Takes.of_refuted (hconflicted.request _ _ _) hrefuted ?_ ?_ <;>
      simp [Fact.hierarchy, Fact.kinds]

theorem takes_linkScheme (h : Sound g) (member scheme : Node) (top : Bool) :
    Takes g (Fact.membership member scheme top) (g.linkScheme member scheme top cause) := by
  unfold linkScheme
  extract_lets schemeId g₁ memberId g₂ schemeFits g₃ memberFits g₄
  have hnamed : Learns g ([.named scheme] ++ [.named member]) g₂ :=
    (learns_ensure h scheme).trans (learns_ensure h.ensure member)
  have hfound₂ : FindsBoth g₂ scheme member schemeId memberId := .ensure h.indexed scheme member
  have hfound₃ : FindsBoth g₃ scheme member schemeId memberId := hfound₂.request _ _
  rcases hnamed.request hfound₂.indexed hfound₂.left .conceptScheme rfl cause with
    ⟨hfits, hlearned⟩ | ⟨hrefused, hconflicted, hrefuted⟩
  · rw [if_admitted (show schemeFits = true from hfits)]
    -- only top concepts ask for a second kind
    cases top with
    | false =>
      rw [if_neg (by simp [memberFits])]
      have hall := hlearned.trans (learns_join hfound₃.symm false)
      rw [← List.append_nil (_ ++ _ ++ Fact.kinds scheme .conceptScheme)] at hall
      exact .inl hall
    | true =>
      rcases hlearned.request hfound₃.indexed hfound₃.right .concept rfl cause with
        ⟨hfits', hlearned'⟩ | ⟨hrefused, hconflicted, hrefuted⟩
      · rw [if_admitted (show memberFits = true from hfits')]
        have hjoined : Learns g₄ _ (g₄.join memberId schemeId true) :=
          learns_join (hfound₃.request _ _).symm true
        exact .inl (hlearned'.trans hjoined)
      · rw [if_refused (show memberFits = false from hrefused)]
        refine Takes.of_refuted hconflicted hrefuted ?_ ?_ <;> simp [Fact.membership, Fact.kinds]
  · rw [if_refused (show schemeFits = false from hrefused)]
    refine Takes.of_refuted hconflicted hrefuted ?_ ?_ <;> simp [Fact.membership, Fact.kinds]

theorem takes_linkMember (h : Sound g) (collection member : Node) :
    Takes g ([.named collection, .named member] ++ Fact.kinds collection .collection ++
      [.member collection member]) (g.linkMember collection member) := by
  unfold linkMember
  extract_lets collectionId g₁ memberId g₂ fits g₃
  have hnamed : Learns g ([.named collection] ++ [.named member]) g₂ :=
    (learns_ensure h collection).trans (learns_ensure h.ensure member)
  have hfound : FindsBoth g₂ collection member collectionId memberId :=
    .ensure h.indexed collection member
  rcases hnamed.request hfound.indexed hfound.left .collection rfl .member with
    ⟨hadmitted, hlearned⟩ | ⟨hrefused, hconflicted, hrefuted⟩
  · rw [if_admitted (show fits = true from hadmitted)]
    have hlinked : Learns g₃ _ (g₃.gather collectionId memberId) :=
      learns_gather (hfound.request _ _)
    exact .inl (hlearned.trans hlinked)
  · rw [if_refused (show fits = false from hrefused)]
    refine Takes.of_refuted hconflicted hrefuted ?_ ?_ <;> simp [Fact.kinds]

theorem takes_linkMemberList (h : Sound g) (collection head : Node) :
    Takes g ([.named collection] ++ Fact.kinds collection .orderedCollection ++
      [.list collection head]) (g.linkMemberList collection head) := by
  unfold linkMemberList
  extract_lets id g₁ fits g₂
  have hfound : g₁.lookup collection = some id := lookup_ensure_self
  rcases (learns_ensure h collection).request h.indexed.ensure hfound .orderedCollection rfl
      .memberList with
    ⟨hadmitted, hlearned⟩ | ⟨hrefused, hconflicted, hrefuted⟩
  · rw [if_admitted (show fits = true from hadmitted)]
    have hfound₂ : g₂.lookup collection = some id := found_request hfound
    cases hkept : (g₂.linksOf id).memberList with
    | none =>
      exact .inl (hlearned.trans (learns_head (indexed_request h.indexed.ensure) hfound₂ hkept))
    | some first =>
      have hknown : g₂.Knows (.list collection first) := by
        simp [Knows, headAt, hfound₂, hkept]
      -- the same head is known already, and another one is refuted
      by_cases hsame : first = head
      · dsimp only
        rw [if_pos hsame]
        refine .inl (hlearned.trans (Learns.again fun fact hmem => ?_))
        rw [List.mem_singleton.1 hmem, ← hsame]
        exact hknown
      · dsimp only
        rw [if_neg hsame]
        have hrefuted : g.Refutes ([.named collection] ++
            Fact.kinds collection .orderedCollection) (.list collection head) :=
          ⟨_, (hlearned.knows_iff _).1 hknown, rfl, Ne.symm hsame⟩
        exact Takes.of_refuted (conflicted_report (.inr rfl)) hrefuted (by simp) (by simp)
  · rw [if_refused (show fits = false from hrefused)]
    refine Takes.of_refuted hconflicted hrefuted ?_ ?_ <;> simp [Fact.kinds]

/-- The classes that are taken in give known kinds. -/
theorem isKnown_of_classKind? {c : Configuration} {class_ : Node} {kind : Kind}
    (h : classKind? c class_ = some kind) : kind.isKnown = true := by
  have hclasses : ∀ iri, Kind.ofClass? iri ≠ some .unknown := by
    intro iri
    unfold Kind.ofClass? Kind.classes
    simp only [List.lookup_cons, List.lookup_nil]
    repeat' split
    all_goals simp
  cases kind with
  | unknown =>
    unfold classKind? at h
    split at h
    · cases h
    · next iri =>
      split at h
      · split at h <;> cases h
      · split at h <;> cases h
      · split at h <;> cases h
      · exact absurd h (hclasses iri)
  | _ => rfl

/-- A relation is taken in, whatever it says. -/
theorem relate_takes (h : Sound g) (relation : Relation) :
    Takes g (relationFacts g.configuration m relation n) (g.relate m relation n) := by
  have hignored : Learns g [] g.ignore := learns_nothing rfl rfl rfl rfl Iff.rfl
  unfold relate relationFacts
  split
  · exact .inl hignored
  · cases relation with
    | type =>
      dsimp only
      cases hkind : classKind? g.configuration n with
      | none =>
        unfold linkType
        rw [hkind]
        exact .inl hignored
      | some kind => exact takes_linkType h hkind (isKnown_of_classKind? hkind)
    | broader => exact takes_linkHierarchy h n m
    | narrower => exact takes_linkHierarchy h m n
    | inScheme => exact takes_linkScheme h m n false
    | topConceptOf => exact takes_linkScheme h m n true
    | hasTopConcept => exact takes_linkScheme h n m true
    | member => exact takes_linkMember h m n
    | memberList => exact takes_linkMemberList h m n
    | listFirst => exact takes_linkCell
    | listRest => exact takes_linkCell

/-! ## Statements -/

/-- Texts say nothing of nodes but that there is a resource. -/
theorem learns_describe (h : Sound g) {p : TextProperty} {l : Literal} :
    Learns g [.named n] (g.describe n p l) := by
  unfold describe
  have hdescribed : Learns (g.ensure n) [] ((g.ensure n).update (g.idOf n) fun r =>
      { r with texts := r.texts.record g.configuration.primaryLanguage p l }) := by
    refine learns_nothing (lookup_update _) (kindOf_update fun _ => rfl) ?_ rfl Iff.rfl
    funext i
    rw [linksOf, linksOf, get_update]
    split <;> cases (g.ensure n).resources[i]? <;> rfl
  exact (learns_ensure h n).trans hdescribed

/-- A statement is taken in, whatever it says. -/
theorem accept_takes (h : Sound g) {t : Triple} (haccepted : g.accept t = .ok g') :
    Takes g (factsOf g.configuration t) g' := by
  have hsame : Learns g [] g.counted := learns_nothing rfl rfl rfl rfl Iff.rfl
  have hignored : Learns g [] g.counted.ignore := learns_nothing rfl rfl rfl rfl Iff.rfl
  have hremarked : Change [] g g.counted := .remark g.cells g.issues _
  have hsound := h.change hremarked
  unfold factsOf
  cases accepted_of_accept haccepted with
  | unknown hpredicate =>
    rw [hpredicate]
    exact .inl hignored
  | related hpredicate hobject =>
    rw [hpredicate, hobject]
    exact (relate_takes hsound _).after hsame
  | described hpredicate hobject =>
    rw [hpredicate, hobject]
    exact .inl (hsame.trans (learns_describe hsound))
  | refused hpredicate hobject =>
    rw [hpredicate, hobject]
    refine .inl (learns_nothing rfl rfl rfl rfl ?_)
    simp [Conflicted, report, counted, Issue.kind]
  | untold hpredicate hobject =>
    rw [hpredicate, hobject]
    exact .inl hignored

/-! ## Streams -/

/-- A graph knows just some facts, or it has recorded that two of them contradict each other. -/
def Describes (g : ResourceGraph) (facts : List Fact) : Prop :=
  (¬ g.Conflicted ∧ ∀ fact, g.Knows fact ↔ fact ∈ facts) ∨
    g.Conflicted ∧ ∃ a ∈ facts, ∃ b ∈ facts, a.Clashes b

theorem describes_new (c : Configuration) : (new c).Describes [] := by
  refine .inl ⟨?_, fun fact => ?_⟩
  · rintro ⟨i, hmem, _⟩
    cases hmem
  · have hnowhere : (new c).lookup = fun _ => none := by
      funext n
      simp [lookup, new]
    have hnoCells : (new c).cells = {} := rfl
    cases fact with
    | kind n k => simp [Knows, kindAt, hnowhere, Kind.isA, Kind.isKnown]
    | cell n slot value => cases slot <;> simp [Knows, hnoCells, CellStore.cell?, ListCell.get]
    | _ => simp [Knows, Relates, headAt, hnowhere]

/-- What a graph has taken in is described by what it knew and what it took in. -/
theorem Describes.takes {facts more : List Fact} (h : g.Describes facts) (hnext : Takes g more g') :
    g'.Describes (facts ++ more) := by
  rcases h with ⟨hquiet, hknown⟩ | ⟨hconflicted, a, ha, b, hb, hclash⟩
  · rcases hnext with hlearned | ⟨hconflicted, a, ha, b, hb, hclash⟩
    · refine .inl ⟨fun hconflicted => hquiet (hlearned.conflicted_iff.1 hconflicted),
        fun fact => ?_⟩
      rw [hlearned.knows_iff, hknown, List.mem_append]
    · refine .inr ⟨hconflicted, a, List.mem_append_right _ ha, b, ?_, hclash⟩
      rcases hb with hb | hb
      · exact List.mem_append_left _ ((hknown b).1 hb)
      · exact List.mem_append_right _ hb
  · have hstill : g'.Conflicted := by
      rcases hnext with hlearned | ⟨hconflicted', _⟩
      · exact hlearned.conflicted_iff.2 hconflicted
      · exact hconflicted'
    exact .inr ⟨hstill, a, List.mem_append_left _ ha, b, List.mem_append_left _ hb, hclash⟩

/-- Taking in statements one after the other describes all of them. -/
theorem Describes.ingestAll {triples : List Triple} {facts : List Fact} (h : Sound g)
    (hdescribes : g.Describes facts) (htaken : g.ingestAll triples = .ok g') :
    g'.Describes (facts ++ triples.flatMap (factsOf g.configuration)) := by
  induction triples generalizing g facts with
  | nil =>
    cases htaken
    simpa using hdescribes
  | cons t rest ih =>
    obtain ⟨g₁, hfirst, hothers⟩ := of_ingestAll_cons htaken
    have haccepted := (of_ingest hfirst).2
    have htail := ih (h.changes (changes_of_ingest h hfirst))
      (hdescribes.takes (accept_takes h haccepted)) hothers
    rw [configuration_accept haccepted] at htail
    rwa [List.flatMap_cons, ← List.append_assoc]

/-- When all statements are in, the graph knows just what they say, or it has recorded that some of
this is contradictory. -/
theorem ingestAll_describes {c : Configuration} {triples : List Triple}
    (htaken : (new c).ingestAll triples = .ok g) :
    g.Describes (triples.flatMap (factsOf c)) :=
  Describes.ingestAll (Sound.new c) (describes_new c) htaken

/-- What is free of contradictions is known, and no conflict is recorded. -/
theorem Describes.of_clashFree {facts : List Fact} (h : g.Describes facts)
    (hfree : ∀ a ∈ facts, ∀ b ∈ facts, ¬ a.Clashes b) :
    ¬ g.Conflicted ∧ ∀ fact, g.Knows fact ↔ fact ∈ facts := by
  rcases h with hknown | ⟨_, a, ha, b, hb, hclash⟩
  · exact hknown
  · exact absurd hclash (hfree a ha b hb)

/-- What a graph without a recorded conflict was told is free of contradictions. -/
theorem Describes.clashFree {facts : List Fact} (h : g.Describes facts) (hquiet : ¬ g.Conflicted) :
    ∀ a ∈ facts, ∀ b ∈ facts, ¬ a.Clashes b := by
  rcases h with ⟨_, hknown⟩ | ⟨hconflicted, _⟩
  · intro a ha b hb
    exact ((hknown a).2 ha).not_clashes ((hknown b).2 hb)
  · exact absurd hconflicted hquiet

end ResourceGraph

end Thesaurus
