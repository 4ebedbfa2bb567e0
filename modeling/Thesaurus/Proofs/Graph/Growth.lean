import Thesaurus.Proofs.Graph.Members

/-!
# Graphs grow

A graph only grows while statements come in: nodes stay where they are, kinds move on as they can,
and links and list cells are added only. So a kind that was asked for stays settled, what was
refused stays refused, and what was linked stays linked.

- `Kind.Settled`: whether asking for a kind leaves a kind as it is.
- `ResourceGraph.Grows`: what one graph has of an earlier one.
- `ResourceGraph.Asked`, `ResourceGraph.Refused`: what became of requests.
- `ResourceGraph.HasTaken`: what a graph has that has taken in a relation, and
  `ResourceGraph.HasTaken.grows`: it is not lost.
- `ResourceGraph.relate_takes_up`, `ResourceGraph.accept_takes_up`,
  `ResourceGraph.ingestAll_takes_up`: whatever is stated, a graph grows and takes it in.
-/

namespace Thesaurus

open Rdf (Node Predicate Relation Triple)

namespace Kind

variable {k l requested : Kind}

/-- Whether asking for a kind leaves a kind as it is, since it fits or since it is refused. -/
def Settled (k requested : Kind) : Prop :=
  k.transition requested = .keep ∨ k.transition requested = .conflict

instance (k requested : Kind) : Decidable (k.Settled requested) :=
  inferInstanceAs (Decidable (_ ∨ _))

theorem settled_after (k requested : Kind) : (k.after requested).Settled requested := by
  cases k <;> cases requested <;> decide

/-- What is settled stays settled. -/
theorem Settled.becomes (h : k.Settled requested) (hlater : k.Becomes l) :
    l.Settled requested := by
  cases k <;> cases requested <;> cases l <;> first | decide | (revert h hlater; decide)

/-- What is refused stays refused. -/
theorem conflict_becomes (h : k.transition requested = .conflict) (hlater : k.Becomes l) :
    l.transition requested = .conflict := by
  cases k <;> cases requested <;> cases l <;> first | rfl | (revert h hlater; decide)

/-- A refusal changes nothing. -/
theorem after_conflict (h : k.transition requested = .conflict) : k.after requested = k := by
  rw [after, h]

end Kind

/-- Whether all that some links say is said by others. Where a list starts in the one, a list starts
in the other, but maybe at another cell. -/
structure Links.Within (l l' : Links) : Prop where
  along : ∀ tie, ∀ id ∈ l.along tie, id ∈ l'.along tie
  head : l.memberList.isSome = true → l'.memberList.isSome = true

namespace Links.Within

variable {l l₁ l' : Links}

theorem refl (l : Links) : l.Within l :=
  ⟨fun _ _ h => h, id⟩

theorem trans (h : l.Within l₁) (hnext : l₁.Within l') : l.Within l' :=
  ⟨fun tie id hid => hnext.along tie id (h.along tie id hid),
    fun hsome => hnext.head (h.head hsome)⟩

end Links.Within

namespace CellStore

variable {s : CellStore} {cell other : Node} {slot slot' : CellSlot} {value : Node}

/-- The value of a slot of a cell, if it is known. -/
def valueOf (s : CellStore) (cell : Node) (slot : CellSlot) : Option Node :=
  ((s.cell? cell).getD {}).get slot

/-- A slot that is filled keeps its value. -/
theorem fill_of_filled (h : (s.valueOf cell slot).isSome = true) : s.fill cell slot value = s := by
  obtain ⟨kept, hfound⟩ := Option.isSome_iff_exists.1 h
  have hfound' : ((s.cell? cell).getD {}).get slot = some kept := hfound
  simp [fill, hfound']

/-- One slot is filled, and the others are as they were. -/
theorem filled_fill : ((s.fill cell slot value).valueOf other slot').isSome = true ↔
    (other = cell ∧ slot' = slot) ∨ (s.valueOf other slot').isSome = true := by
  cases hfound : s.valueOf cell slot with
  | some kept =>
    have hfilled : (s.valueOf cell slot).isSome = true := by rw [hfound]; rfl
    rw [fill_of_filled hfilled]
    refine ⟨.inr, fun h => h.elim ?_ id⟩
    rintro ⟨rfl, rfl⟩
    exact hfilled
  | none =>
    have hempty : ((s.cell? cell).getD {}).get slot = none := hfound
    have hstored : s.fill cell slot value =
        s.put cell (((s.cell? cell).getD {}).set slot value) := by
      simp [fill, hempty]
    rw [hstored, valueOf, cell?, put, Table.lookup_putInto]
    by_cases hsame : other = cell
    · subst hsame
      rw [if_pos rfl, Option.getD_some, ListCell.get_set]
      by_cases hhere : slot' = slot
      · simp [hhere]
      · simp [hhere, valueOf]
    · rw [if_neg hsame]
      simp [hsame, valueOf, cell?]

end CellStore

namespace ResourceGraph

variable {g g₁ g' : ResourceGraph} {m n : Node} {i j : ResourceId} {requested : Kind}
  {cause : Relation}

/-! ## Growing -/

/-- What a graph has of an earlier one: nodes are found where they were, kinds have moved on as they
can, links are kept, and slots of list cells stay filled. -/
structure Grows (g g' : ResourceGraph) : Prop where
  found : ∀ n i, g.lookup n = some i → g'.lookup n = some i
  becomes : ∀ i, (g.kindOf i).Becomes (g'.kindOf i)
  links : ∀ i, (g.linksOf i).Within (g'.linksOf i)
  cells : ∀ cell slot, (g.cells.valueOf cell slot).isSome = true →
    (g'.cells.valueOf cell slot).isSome = true
  configuration : g'.configuration = g.configuration

namespace Grows

theorem refl (g : ResourceGraph) : Grows g g :=
  ⟨fun _ _ h => h, fun _ => .refl _, fun _ => .refl _, fun _ _ h => h, rfl⟩

theorem trans (h : Grows g g₁) (hnext : Grows g₁ g') : Grows g g' where
  found := fun n i hn => hnext.found n i (h.found n i hn)
  becomes := fun i => (h.becomes i).trans (hnext.becomes i)
  links := fun i => (h.links i).trans (hnext.links i)
  cells := fun cell slot hfilled => hnext.cells cell slot (h.cells cell slot hfilled)
  configuration := hnext.configuration.trans h.configuration

/-- Nothing is lost where the resources stay as they are, and are found as before. -/
theorem of_resources (hresources : g'.resources = g.resources) (hlookup : g'.lookup = g.lookup)
    (hcells : ∀ cell slot, (g.cells.valueOf cell slot).isSome = true →
      (g'.cells.valueOf cell slot).isSome = true)
    (hconfiguration : g'.configuration = g.configuration) : Grows g g' where
  found := fun n i hn => by rwa [hlookup]
  becomes := fun i => by
    rw [kindOf_congr hresources]
    exact .refl _
  links := fun i => by
    rw [linksOf_congr hresources]
    exact .refl _
  cells := hcells
  configuration := hconfiguration

theorem ensure (g : ResourceGraph) (n : Node) : Grows g (g.ensure n) where
  found := fun _ _ hm => lookup_ensure_of_some hm
  becomes := fun i => by
    rw [kindOf_ensure]
    exact .refl _
  links := fun i => by
    rw [linksOf_ensure]
    exact .refl _
  cells := fun cell slot hfilled => by rwa [cells_ensure]
  configuration := configuration_ensure

theorem request (g : ResourceGraph) (id : ResourceId) (requested : Kind) (cause : Relation) :
    Grows g (g.request id requested cause) where
  found := fun _ _ hn => found_request hn
  becomes := fun i => becomes_request ..
  links := fun i => by
    rw [linksOf_request]
    exact .refl _
  cells := fun cell slot hfilled => by rwa [cells_request]
  configuration := by
    rw [request_eq]
    rfl

/-- Changing a resource loses nothing if its kind stays and its links are kept. -/
theorem update (g : ResourceGraph) (id : ResourceId) {change : Resource → Resource}
    (hkind : ∀ r, (change r).kind = r.kind)
    (hlinks : ∀ r : Resource, r.links.Within (change r).links) : Grows g (g.update id change) where
  found := fun n i hn => by rwa [lookup_update]
  becomes := fun i => by
    rw [kindOf_update hkind]
    exact .refl _
  links := fun i => by
    rw [linksOf, linksOf, get_update]
    split
    · cases g.resources[i]? with
      | none => exact .refl _
      | some r => exact hlinks r
    · exact .refl _
  cells := fun _ _ hfilled => hfilled
  configuration := rfl

theorem updateLinks (g : ResourceGraph) (id : ResourceId) {change : Links → Links}
    (hchange : ∀ l : Links, l.Within (change l)) : Grows g (g.updateLinks id change) :=
  update g id (fun _ => rfl) fun r => hchange r.links

theorem narrow (g : ResourceGraph) (upper lower : ResourceId) :
    Grows g (g.narrow upper lower) := by
  refine (updateLinks g _ ?_).trans (updateLinks _ _ ?_) <;>
    exact fun l => ⟨fun tie id h => by cases tie <;> simp_all [Links.along], id⟩

theorem join (g : ResourceGraph) (member scheme : ResourceId) (top : Bool) :
    Grows g (g.join member scheme top) := by
  refine (updateLinks g _ ?_).trans (updateLinks _ _ ?_) <;>
    exact fun l => ⟨fun tie id h => by cases tie <;> cases top <;> simp_all [Links.along], id⟩

theorem gather (g : ResourceGraph) (collection member : ResourceId) :
    Grows g (g.gather collection member) := by
  refine (updateLinks g _ ?_).trans (updateLinks _ _ ?_) <;>
    exact fun l => ⟨fun tie id h => by cases tie <;> simp_all [Links.along], id⟩

theorem report (g : ResourceGraph) (issue : Issue) : Grows g (g.report issue) :=
  of_resources rfl rfl (fun _ _ hfilled => hfilled) rfl

theorem counters (g : ResourceGraph) (counters : Counters) :
    Grows g { g with counters := counters } :=
  of_resources rfl rfl (fun _ _ hfilled => hfilled) rfl

end Grows

/-! ## What became of requests -/

/-- Whether a node is a resource. -/
def Named (g : ResourceGraph) (n : Node) : Prop :=
  ∃ i, g.lookup n = some i

/-- Whether a node is a resource for which asking for a kind is settled. -/
def Asked (g : ResourceGraph) (n : Node) (requested : Kind) : Prop :=
  ∃ i, g.lookup n = some i ∧ (g.kindOf i).Settled requested

/-- Whether a node is a resource that cannot be of a kind. -/
def Refused (g : ResourceGraph) (n : Node) (requested : Kind) : Prop :=
  ∃ i, g.lookup n = some i ∧ (g.kindOf i).transition requested = .conflict

/-- Whether a node is a resource whose member list starts somewhere. -/
def Headed (g : ResourceGraph) (n : Node) : Prop :=
  ∃ i, g.lookup n = some i ∧ (g.linksOf i).memberList.isSome = true

theorem Named.grows (h : g.Named n) (hlater : Grows g g') : g'.Named n := by
  obtain ⟨i, hn⟩ := h
  exact ⟨i, hlater.found n i hn⟩

theorem Asked.grows (h : g.Asked n requested) (hlater : Grows g g') : g'.Asked n requested := by
  obtain ⟨i, hn, hsettled⟩ := h
  exact ⟨i, hlater.found n i hn, hsettled.becomes (hlater.becomes i)⟩

theorem Refused.grows (h : g.Refused n requested) (hlater : Grows g g') :
    g'.Refused n requested := by
  obtain ⟨i, hn, hrefused⟩ := h
  exact ⟨i, hlater.found n i hn, Kind.conflict_becomes hrefused (hlater.becomes i)⟩

theorem Headed.grows (h : g.Headed n) (hlater : Grows g g') : g'.Headed n := by
  obtain ⟨i, hn, hhead⟩ := h
  exact ⟨i, hlater.found n i hn, (hlater.links i).head hhead⟩

theorem Relates.grows {tie : Tie} (h : g.Relates tie m n) (hlater : Grows g g') :
    g'.Relates tie m n := by
  obtain ⟨i, j, hm, hn, hrelated⟩ := h
  exact ⟨i, j, hlater.found m i hm, hlater.found n j hn, (hlater.links i).along tie j hrelated⟩

/-- A request is settled at once. -/
theorem asked_request (h : Indexed g) (hn : g.lookup n = some i) :
    (g.request i requested cause).Asked n requested := by
  refine ⟨i, found_request hn, ?_⟩
  rw [kindOf_request (lookup_lt h hn), if_pos rfl]
  exact Kind.settled_after _ _

theorem refused_request (h : Indexed g) (hn : g.lookup n = some i)
    (hrefused : g.admits i requested = false) :
    (g.request i requested cause).Refused n requested := by
  have hconflict : (g.kindOf i).transition requested = .conflict := by
    simpa [admits] using hrefused
  refine ⟨i, found_request hn, ?_⟩
  rwa [kindOf_request (lookup_lt h hn), if_pos rfl, Kind.after_conflict hconflict]

theorem not_refused (hn : g.lookup n = some i) (hadmitted : g.admits i requested = true) :
    ¬ g.Refused n requested := by
  rintro ⟨j, hj, hconflict⟩
  obtain rfl : i = j := Option.some.inj (hn.symm.trans hj)
  simp [admits, hconflict] at hadmitted

/-! ## What taking in a relation leads to -/

/-- What a graph has that was told of a broader and a narrower concept: both were asked to be
concepts, and they are linked unless one of them was refused. -/
structure HasRanked (g : ResourceGraph) (upper lower : Node) : Prop where
  upper_asked : g.Asked upper .concept
  lower_asked : g.Asked lower .concept
  linked : g.Refused upper .concept ∨ g.Refused lower .concept ∨
    g.Relates .narrower upper lower ∧ g.Relates .broader lower upper

/-- What a graph has that was told of a resource in a scheme: the scheme was asked to be one, and,
unless it was refused, a top concept was asked to be a concept, and they are linked unless that was
refused too. -/
structure HasJoined (g : ResourceGraph) (member scheme : Node) (top : Bool) : Prop where
  member_named : g.Named member
  scheme_asked : g.Asked scheme .conceptScheme
  member_asked : g.Refused scheme .conceptScheme ∨ (top = true → g.Asked member .concept)
  linked : g.Refused scheme .conceptScheme ∨ top = true ∧ g.Refused member .concept ∨
    g.Relates .inSchemes member scheme ∧ g.Relates .schemeMembers scheme member ∧
      (top = true → g.Relates .topConcepts scheme member)

/-- What a graph has that was told of a member: the collection was asked to be one, and they are
linked unless it was refused. -/
structure HasGathered (g : ResourceGraph) (collection member : Node) : Prop where
  member_named : g.Named member
  collection_asked : g.Asked collection .collection
  linked : g.Refused collection .collection ∨
    g.Relates .members collection member ∧ g.Relates .inCollections member collection

/-- What a graph has that was told of a member list: the collection was asked to be ordered, and
has a list unless it was refused. -/
structure HasListed (g : ResourceGraph) (collection : Node) : Prop where
  collection_asked : g.Asked collection .orderedCollection
  listed : g.Refused collection .orderedCollection ∨ g.Headed collection

/-- What a graph has that has taken in a relation. -/
def HasTaken (g : ResourceGraph) (subject : Node) (relation : Relation) (object : Node) : Prop :=
  match relation with
  | .type => ∀ kind, classKind? g.configuration object = some kind → g.Asked subject kind
  | .broader => g.HasRanked object subject
  | .narrower => g.HasRanked subject object
  | .inScheme => g.HasJoined subject object false
  | .topConceptOf => g.HasJoined subject object true
  | .hasTopConcept => g.HasJoined object subject true
  | .member => g.HasGathered subject object
  | .memberList => g.HasListed subject
  | .listFirst => (g.cells.valueOf subject .first).isSome = true
  | .listRest => (g.cells.valueOf subject .rest).isSome = true

theorem HasRanked.grows (h : g.HasRanked m n) (hlater : Grows g g') : g'.HasRanked m n where
  upper_asked := h.upper_asked.grows hlater
  lower_asked := h.lower_asked.grows hlater
  linked := h.linked.imp (·.grows hlater)
    (.imp (·.grows hlater) (.imp (·.grows hlater) (·.grows hlater)))

theorem HasJoined.grows {top : Bool} (h : g.HasJoined m n top) (hlater : Grows g g') :
    g'.HasJoined m n top where
  member_named := h.member_named.grows hlater
  scheme_asked := h.scheme_asked.grows hlater
  member_asked := h.member_asked.imp (·.grows hlater) fun hasked ht => (hasked ht).grows hlater
  linked := h.linked.imp (·.grows hlater) (.imp (.imp_right (·.grows hlater))
    (.imp (·.grows hlater) (.imp (·.grows hlater) fun hrelated ht => (hrelated ht).grows hlater)))

theorem HasGathered.grows (h : g.HasGathered m n) (hlater : Grows g g') : g'.HasGathered m n where
  member_named := h.member_named.grows hlater
  collection_asked := h.collection_asked.grows hlater
  linked := h.linked.imp (·.grows hlater) (.imp (·.grows hlater) (·.grows hlater))

theorem HasListed.grows (h : g.HasListed n) (hlater : Grows g g') : g'.HasListed n where
  collection_asked := h.collection_asked.grows hlater
  listed := h.listed.imp (·.grows hlater) (·.grows hlater)

/-- What has been taken in is not lost. -/
theorem HasTaken.grows {relation : Relation} (h : g.HasTaken m relation n) (hlater : Grows g g') :
    g'.HasTaken m relation n := by
  cases relation with
  | type =>
    intro kind hkind
    rw [hlater.configuration] at hkind
    exact (h kind hkind).grows hlater
  | broader => exact HasRanked.grows h hlater
  | narrower => exact HasRanked.grows h hlater
  | inScheme => exact HasJoined.grows h hlater
  | topConceptOf => exact HasJoined.grows h hlater
  | hasTopConcept => exact HasJoined.grows h hlater
  | member => exact HasGathered.grows h hlater
  | memberList => exact HasListed.grows h hlater
  | listFirst => exact hlater.cells _ _ h
  | listRest => exact hlater.cells _ _ h

/-! ## Taking in a relation -/

/-- New links are found at both of their ends. -/
theorem relates_narrow (h : FindsBoth g m n i j) :
    (g.narrow i j).Relates .narrower m n ∧ (g.narrow i j).Relates .broader n m := by
  constructor <;> simp [relates_narrow_iff h]

theorem relates_join (h : FindsBoth g m n i j) (top : Bool) :
    (g.join i j top).Relates .inSchemes m n ∧ (g.join i j top).Relates .schemeMembers n m ∧
      (top = true → (g.join i j top).Relates .topConcepts n m) := by
  refine ⟨?_, ?_, fun hisTop => ?_⟩ <;> simp [relates_join_iff h, *]

theorem relates_gather (h : FindsBoth g m n i j) :
    (g.gather i j).Relates .members m n ∧ (g.gather i j).Relates .inCollections n m := by
  constructor <;> simp [relates_gather_iff h]

theorem linkType_takes_up (h : Indexed g) (n class_ : Node) :
    Grows g (g.linkType n class_) ∧
      ∀ kind, classKind? g.configuration class_ = some kind →
        (g.linkType n class_).Asked n kind := by
  unfold linkType
  split
  · next hnone => exact ⟨.counters g _, fun kind hkind => by simp [hnone] at hkind⟩
  · next kind hkind =>
    refine ⟨(Grows.ensure g n).trans (.request ..), fun kind' hkind' => ?_⟩
    obtain rfl : kind = kind' := Option.some.inj (hkind.symm.trans hkind')
    exact asked_request h.ensure lookup_ensure_self

theorem linkHierarchy_takes_up (h : Indexed g) (upper lower : Node) (cause : Relation) :
    Grows g (g.linkHierarchy upper lower cause) ∧
      (g.linkHierarchy upper lower cause).HasRanked upper lower := by
  unfold linkHierarchy
  extract_lets upperId g₁ lowerId g₂ upperFits g₃ lowerFits g₄
  have hfound₂ : FindsBoth g₂ upper lower upperId lowerId := .ensure h upper lower
  have hfound₃ : FindsBoth g₃ upper lower upperId lowerId := hfound₂.request _ _
  have hgrows₂ : Grows g g₂ := (Grows.ensure g upper).trans (.ensure _ lower)
  have hgrows₄ : Grows g₃ g₄ := .request ..
  have hgrows : Grows g g₄ := (hgrows₂.trans (.request ..)).trans hgrows₄
  have hupperAsked : g₄.Asked upper .concept :=
    (asked_request hfound₂.indexed hfound₂.left).grows hgrows₄
  have hlowerAsked : g₄.Asked lower .concept := asked_request hfound₃.indexed hfound₃.right
  -- both concepts fit and are linked, or one of them is refused
  split
  · have hlinked : Grows g₄ (g₄.narrow upperId lowerId) := .narrow ..
    exact ⟨hgrows.trans hlinked, hupperAsked.grows hlinked, hlowerAsked.grows hlinked,
      .inr (.inr (relates_narrow (hfound₃.request _ _)))⟩
  · next hnotBoth =>
    refine ⟨hgrows, hupperAsked, hlowerAsked, ?_⟩
    rw [Bool.and_eq_true, not_and_or, Bool.not_eq_true, Bool.not_eq_true] at hnotBoth
    rcases hnotBoth with hrefused | hrefused
    · exact .inl ((refused_request hfound₂.indexed hfound₂.left hrefused).grows hgrows₄)
    · exact .inr (.inl (refused_request hfound₃.indexed hfound₃.right hrefused))

theorem linkScheme_takes_up (h : Indexed g) (member scheme : Node) (top : Bool)
    (cause : Relation) : Grows g (g.linkScheme member scheme top cause) ∧
      (g.linkScheme member scheme top cause).HasJoined member scheme top := by
  unfold linkScheme
  extract_lets schemeId g₁ memberId g₂ schemeFits g₃ memberFits g₄
  have hfound₂ : FindsBoth g₂ scheme member schemeId memberId := .ensure h scheme member
  have hfound₃ : FindsBoth g₃ scheme member schemeId memberId := hfound₂.request _ _
  have hgrows₃ : Grows g g₃ :=
    ((Grows.ensure g scheme).trans (.ensure _ member)).trans (.request ..)
  have hschemeAsked : g₃.Asked scheme .conceptScheme := asked_request hfound₂.indexed hfound₂.left
  have hmemberNamed : g₃.Named member := ⟨memberId, hfound₃.right⟩
  -- only a top concept is asked to be a concept; for others the third graph is the fourth
  have hgrows₄ : Grows g₃ g₄ := by
    show Grows g₃ (if top then g₃.request memberId .concept cause else g₃)
    split
    · exact .request ..
    · exact .refl _
  have hmemberAsked : top = true → g₄.Asked member .concept := by
    intro hisTop
    show (if top then g₃.request memberId .concept cause else g₃).Asked member .concept
    rw [if_pos hisTop]
    exact asked_request hfound₃.indexed hfound₃.right
  -- a refusal takes the place of the ties, so that each way out names one of them
  split
  · next hrefused =>
    have hschemeRefused : g₃.Refused scheme .conceptScheme :=
      refused_request hfound₂.indexed hfound₂.left (by simpa using hrefused)
    exact ⟨hgrows₃, hmemberNamed, hschemeAsked, .inl hschemeRefused,
      .inl hschemeRefused⟩
  · split
    · next hrefused =>
      obtain ⟨hisTop, hnotAdmitted⟩ : top = true ∧ g₃.admits memberId .concept = false := by
        simpa [memberFits] using hrefused
      have hmemberRefused : g₄.Refused member .concept := by
        show (if top then g₃.request memberId .concept cause else g₃).Refused member .concept
        rw [if_pos hisTop]
        exact refused_request hfound₃.indexed hfound₃.right hnotAdmitted
      exact ⟨hgrows₃.trans hgrows₄, hmemberNamed.grows hgrows₄,
        hschemeAsked.grows hgrows₄, .inr hmemberAsked, .inr (.inl ⟨hisTop, hmemberRefused⟩)⟩
    · have hfound₄ : FindsBoth g₄ scheme member schemeId memberId := by
        show FindsBoth (if top then g₃.request memberId .concept cause else g₃) ..
        split
        · exact hfound₃.request _ _
        · exact hfound₃
      have hlinked : Grows g₄ (g₄.join memberId schemeId top) := .join ..
      exact ⟨(hgrows₃.trans hgrows₄).trans hlinked,
        (hmemberNamed.grows hgrows₄).grows hlinked, (hschemeAsked.grows hgrows₄).grows hlinked,
        .inr fun hisTop => (hmemberAsked hisTop).grows hlinked,
        .inr (.inr (relates_join hfound₄.symm top))⟩

theorem linkMember_takes_up (h : Indexed g) (collection member : Node) :
    Grows g (g.linkMember collection member) ∧
      (g.linkMember collection member).HasGathered collection member := by
  unfold linkMember
  extract_lets collectionId g₁ memberId g₂ fits g₃
  have hfound₂ : FindsBoth g₂ collection member collectionId memberId :=
    .ensure h collection member
  have hfound₃ : FindsBoth g₃ collection member collectionId memberId := hfound₂.request _ _
  have hgrows₃ : Grows g g₃ :=
    ((Grows.ensure g collection).trans (.ensure _ member)).trans (.request ..)
  have hasked : g₃.Asked collection .collection := asked_request hfound₂.indexed hfound₂.left
  have hmemberNamed : g₃.Named member := ⟨memberId, hfound₃.right⟩
  split
  · next hrefused =>
    exact ⟨hgrows₃, hmemberNamed, hasked,
      .inl (refused_request hfound₂.indexed hfound₂.left (by simpa using hrefused))⟩
  · have hlinked : Grows g₃ (g₃.gather collectionId memberId) := .gather ..
    exact ⟨hgrows₃.trans hlinked, hmemberNamed.grows hlinked, hasked.grows hlinked,
      .inr (relates_gather hfound₃)⟩

/-- A member list is given a head, and has one from then on. -/
theorem headed_updateLinks (h : Indexed g) (hn : g.lookup n = some i) (head : Node) :
    Grows g (g.updateLinks i fun l => { l with memberList := some head }) ∧
      (g.updateLinks i fun l => { l with memberList := some head }).Headed n := by
  have hlinked : Grows g (g.updateLinks i fun l => { l with memberList := some head }) := by
    refine .updateLinks _ _ ?_
    exact fun l => ⟨fun tie id h => by cases tie <;> exact h, fun _ => rfl⟩
  refine ⟨hlinked, i, hlinked.found n i hn, ?_⟩
  rw [linksOf_updateLinks _ (lookup_lt h hn), if_pos rfl]
  rfl

theorem linkMemberList_takes_up (h : Indexed g) (collection head : Node) :
    Grows g (g.linkMemberList collection head) ∧
      (g.linkMemberList collection head).HasListed collection := by
  unfold linkMemberList
  extract_lets id g₁ fits g₂
  have hfound : g₁.lookup collection = some id := lookup_ensure_self
  have hgrows₂ : Grows g₁ g₂ := .request ..
  have hgrows : Grows g g₂ := (Grows.ensure g collection).trans hgrows₂
  have hfound₂ : g₂.lookup collection = some id := hgrows₂.found _ _ hfound
  have hasked : g₂.Asked collection .orderedCollection := asked_request h.ensure hfound
  split
  · next hrefused =>
    exact ⟨hgrows, hasked, .inl (refused_request h.ensure hfound (by simpa using hrefused))⟩
  · split
    · obtain ⟨hlinked, hheaded⟩ := headed_updateLinks (indexed_request h.ensure) hfound₂ head
      exact ⟨hgrows.trans hlinked, hasked.grows hlinked, .inr hheaded⟩
    · next kept hlisted =>
      have hheaded : g₂.Headed collection := ⟨id, hfound₂, by rw [hlisted]; rfl⟩
      split
      · exact ⟨hgrows, hasked, .inr hheaded⟩
      · have hreported : ∀ issue, Grows g₂ (g₂.report issue) := fun issue => .report _ issue
        exact ⟨hgrows.trans (hreported _), hasked.grows (hreported _),
          .inr (hheaded.grows (hreported _))⟩

theorem linkCell_takes_up (g : ResourceGraph) (cell : Node) (slot : CellSlot) (value : Node) :
    Grows g (g.linkCell cell slot value) ∧
      ((g.linkCell cell slot value).cells.valueOf cell slot).isSome = true :=
  ⟨.of_resources rfl rfl (fun _ _ hfilled => CellStore.filled_fill.2 (.inr hfilled)) rfl,
    CellStore.filled_fill.2 (.inl ⟨rfl, rfl⟩)⟩

/-- Whatever relation is taken in, the graph grows, and has taken it in if it is considered. -/
theorem relate_takes_up (h : Indexed g) (m : Node) (relation : Relation) (n : Node) :
    Grows g (g.relate m relation n) ∧
      (considers g.configuration relation = true →
        (g.relate m relation n).HasTaken m relation n) := by
  unfold relate
  split
  · next hignored => exact ⟨.counters g _, fun hconsidered => by simp [hconsidered] at hignored⟩
  · cases relation with
    | type =>
      obtain ⟨hgrows, hasked⟩ := linkType_takes_up h m n
      refine ⟨hgrows, fun _ kind hkind => hasked kind ?_⟩
      rwa [hgrows.configuration] at hkind
    | broader => exact (linkHierarchy_takes_up h n m _).imp id fun htaken _ => htaken
    | narrower => exact (linkHierarchy_takes_up h m n _).imp id fun htaken _ => htaken
    | inScheme => exact (linkScheme_takes_up h m n _ _).imp id fun htaken _ => htaken
    | topConceptOf => exact (linkScheme_takes_up h m n _ _).imp id fun htaken _ => htaken
    | hasTopConcept => exact (linkScheme_takes_up h n m _ _).imp id fun htaken _ => htaken
    | member => exact (linkMember_takes_up h m n).imp id fun htaken _ => htaken
    | memberList => exact (linkMemberList_takes_up h m n).imp id fun htaken _ => htaken
    | listFirst => exact (linkCell_takes_up g m .first n).imp id fun htaken _ => htaken
    | listRest => exact (linkCell_takes_up g m .rest n).imp id fun htaken _ => htaken

/-! ## Statements -/

/-- Whether a graph has taken in a statement, as far as it is about two nodes and considered. -/
def HasAccepted (g : ResourceGraph) (t : Triple) : Prop :=
  ∀ r n, Predicate.ofIri? t.predicate = some (.relation r) → t.object = .node n →
    considers g.configuration r = true → g.HasTaken t.subject r n

theorem HasAccepted.grows {t : Triple} (h : g.HasAccepted t) (hlater : Grows g g') :
    g'.HasAccepted t := by
  intro r n hpredicate hobject hconsidered
  rw [hlater.configuration] at hconsidered
  exact (h r n hpredicate hobject hconsidered).grows hlater

/-- Whatever is stated, a graph grows, and takes it in. -/
theorem accept_takes_up {t : Triple} (h : Indexed g) (haccepted : g.accept t = .ok g') :
    Grows g g' ∧ g'.HasAccepted t := by
  have hcounted : Grows g g.counted := .counters g _
  -- a relation to a node is all that asks for something
  cases accepted_of_accept haccepted with
  | unknown hpredicate =>
    refine ⟨hcounted.trans (.counters _ _), fun r n hr => ?_⟩
    rw [hpredicate] at hr
    cases hr
  | @related r n hpredicate hobject =>
    obtain ⟨hgrows, htaken⟩ := relate_takes_up (h.congr rfl rfl : Indexed g.counted) t.subject r n
    refine ⟨hcounted.trans hgrows, fun r' n' hr hn hconsidered => ?_⟩
    rw [hpredicate] at hr
    rw [hobject] at hn
    cases hr
    cases hn
    rw [hgrows.configuration] at hconsidered
    exact htaken hconsidered
  | described hpredicate hobject =>
    refine ⟨hcounted.trans ((Grows.ensure _ _).trans (.update _ _ ?_ ?_)), fun r n _ hn => ?_⟩
    · exact fun _ => rfl
    · exact fun _ => .refl _
    · rw [hobject] at hn
      cases hn
  | refused hpredicate hobject =>
    refine ⟨hcounted.trans (.report _ _), fun r n _ hn => ?_⟩
    rw [hobject] at hn
    cases hn
  | untold hpredicate hobject =>
    refine ⟨hcounted.trans (.counters _ _), fun r n hr => ?_⟩
    rw [hpredicate] at hr
    cases hr

/-- What is stated somewhere in a stream has been taken in when all of it is. -/
theorem ingestAll_takes_up {triples : List Triple} (h : Sound g)
    (htaken : g.ingestAll triples = .ok g') : Grows g g' ∧ ∀ t ∈ triples, g'.HasAccepted t := by
  -- by induction on the stream; what is taken in by one statement is kept by all later ones
  induction triples generalizing g with
  | nil =>
    cases htaken
    exact ⟨.refl _, fun t ht => absurd ht List.not_mem_nil⟩
  | cons first rest ih =>
    obtain ⟨g₁, hingested, hrestTaken⟩ := of_ingestAll_cons htaken
    obtain ⟨hgrows, hfirstTaken⟩ := accept_takes_up h.indexed (of_ingest hingested).2
    obtain ⟨hlater, hlaterTaken⟩ := ih (h.changes (changes_of_ingest h hingested)) hrestTaken
    refine ⟨hgrows.trans hlater, fun t ht => ?_⟩
    rcases List.mem_cons.1 ht with rfl | ht
    · exact hfirstTaken.grows hlater
    · exact hlaterTaken t ht

end ResourceGraph

end Thesaurus
