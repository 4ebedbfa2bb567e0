import Mathlib.Data.List.Nodup
import Thesaurus.Proofs.Forest.Growing

/-!
# The roots of a sound graph

- `ResourceGraph.isRootConcept`: whether a concept is a root, without the ways in which looking up
  others could fail.
- `rootConcepts`, `rootSchemes`, `rootCollections`, `plannedRoots`: the three groups of roots, and
  all of them.
- `roots_eq`: the roots are found, one group after the other.
- `inside_of_broader`, `isRootConcept_or_member`: what is above root concepts, and above others.
- `apt_of_mem_roots`: roots can be shown at the top.
- `nodup_roots`: none of them is listed twice.
-/

namespace Thesaurus

/-- Whether a resource is a concept at which a traversal starts: it is shown outside all schemes and
has no broader concept there. Where collections are shown too, a member of a collection has to have
a narrower concept outside all schemes, which the collection might not lead to. -/
def ResourceGraph.isRootConcept (g : ResourceGraph) (r : Resource) : Bool :=
  r.kind == .concept && g.shownOutside r.id &&
    r.links.broader.toList.all (fun b => !(g.linksOf b).inSchemes.isEmpty) &&
    (!g.configuration.collections || r.links.inCollections.isEmpty ||
      (g.configuration.conceptSchemes &&
        r.links.narrower.toList.any fun n => (g.linksOf n).inSchemes.isEmpty))

namespace Traversal

variable {g : ResourceGraph} {e : Edge} {r : Resource} {id : ResourceId} {ids : List ResourceId}
  {resources : List Resource}

/-- The concepts at which traversals start. -/
def rootConcepts (g : ResourceGraph) : List Resource :=
  g.resources.toList.filter g.isRootConcept

/-- The schemes at which traversals start. -/
def rootSchemes (g : ResourceGraph) : List Resource :=
  g.resources.toList.filter fun r => r.kind = .conceptScheme && g.configuration.conceptSchemes

/-- The collections at which traversals start. -/
def rootCollections (g : ResourceGraph) : List Resource :=
  g.resources.toList.filter fun r =>
    r.kind.isCollection && g.configuration.collections && r.links.inCollections.isEmpty

/-- The ids of some resources, in the order in which these are shown. -/
def plannedIds (resources : List Resource) : List ResourceId :=
  (inDisplayOrder resources).map (·.id)

/-- The ids of all roots: concepts come first, then schemes, then collections. -/
def plannedRoots (g : ResourceGraph) : List ResourceId :=
  plannedIds (rootConcepts g) ++ plannedIds (rootSchemes g) ++ plannedIds (rootCollections g)

theorem mem_plannedRoots : id ∈ plannedRoots g ↔ id ∈ plannedIds (rootConcepts g) ∨
    id ∈ plannedIds (rootSchemes g) ∨ id ∈ plannedIds (rootCollections g) := by
  simp only [plannedRoots, List.mem_append, or_assoc]

/-! ## Finding them -/

theorem anyOutsideSchemes_eq (hids : ∀ id ∈ ids, id < g.size) :
    anyOutsideSchemes g ids = .ok (ids.any fun id => (g.linksOf id).inSchemes.isEmpty) := by
  induction ids with
  | nil => rfl
  | cons id rest ih =>
    obtain ⟨r, hr⟩ := ResourceGraph.exists_resource (hids id List.mem_cons_self)
    have hlater := ih fun id hid => hids id (List.mem_cons_of_mem _ hid)
    rw [anyOutsideSchemes, ResourceGraph.resource_eq hr, List.any_cons,
      ResourceGraph.linksOf_eq hr]
    by_cases houtside : r.links.inSchemes.isEmpty = true
    · rw [houtside]
      exact if_pos houtside
    · rw [Bool.eq_false_iff.2 houtside]
      exact (if_neg houtside).trans hlater

/-- Where schemes are not considered, nothing is in a scheme. -/
theorem inSchemes_isEmpty (h : Sound g) (hschemes : g.configuration.conceptSchemes = false) :
    (g.linksOf id).inSchemes.isEmpty = true := by
  by_contra hinside
  obtain ⟨s, hs⟩ := List.isEmpty_eq_false_iff_exists_mem.1 (Bool.eq_false_iff.2 hinside)
  have hscheme := h.linked.scheme_kind s id ((h.linked.schemeMember_iff s id).2 hs)
  have hconsidered := h.considered s
  rw [hscheme] at hconsidered
  simp [Configuration.considersKind, hschemes] at hconsidered

/-- What is shown outside all schemes is what belongs to none. -/
theorem shownOutside_eq (h : Sound g) (id : ResourceId) :
    g.shownOutside id = (g.linksOf id).inSchemes.isEmpty := by
  unfold ResourceGraph.shownOutside
  cases hschemes : g.configuration.conceptSchemes with
  | false => simp [inSchemes_isEmpty h hschemes]
  | true => simp

theorem isConceptRoot_eq (h : Sound g) (hr : g.Holds r) (hkind : r.kind = .concept) :
    isConceptRoot g r = .ok (g.isRootConcept r) := by
  have hbroaderIn : ∀ id ∈ r.links.broader.toList, id < g.size := fun _ hid => hr.broader_lt h hid
  have hnarrowerIn : ∀ id ∈ r.links.narrower.toList, id < g.size := fun _ hid =>
    hr.narrower_lt h hid
  have habove := anyOutsideSchemes_eq hbroaderIn
  have hbelow := anyOutsideSchemes_eq hnarrowerIn
  have hnone : r.links.broader.toList.any (fun id => (g.linksOf id).inSchemes.isEmpty) =
      !r.links.broader.toList.all fun id => !(g.linksOf id).inSchemes.isEmpty := by
    simp [List.any_eq_not_all_not]
  simp only [isConceptRoot, habove, hbelow, hnone, ResourceGraph.isRootConcept,
    ResourceGraph.shownOutside, hr.linksOf, hkind]
  cases g.configuration.conceptSchemes <;> cases r.links.inSchemes.isEmpty <;>
    cases r.links.broader.toList.all (fun id => !(g.linksOf id).inSchemes.isEmpty) <;>
    cases g.configuration.collections <;> cases r.links.inCollections.isEmpty <;> simp

theorem conceptRoots_eq (h : Sound g) (hall : ∀ r ∈ resources, g.Holds r) :
    conceptRoots g resources = .ok (resources.filter g.isRootConcept) := by
  induction resources with
  | nil => rfl
  | cons r rest ih =>
    have hlater := ih fun s hs => hall s (List.mem_cons_of_mem _ hs)
    have hdecided : (if r.kind = .concept then isConceptRoot g r else .ok false) =
        .ok (g.isRootConcept r) := by
      by_cases hconcept : r.kind = .concept
      · rw [if_pos hconcept]
        exact isConceptRoot_eq h (hall r List.mem_cons_self) hconcept
      · simp [ResourceGraph.isRootConcept, hconcept]
    simp only [conceptRoots, hdecided, hlater, List.filter_cons]

/-- The roots of a sound graph are found, one group after the other. -/
theorem roots_eq (h : Sound g) : roots g = .ok (plannedRoots g) := by
  have hfound := conceptRoots_eq h fun r hr => ResourceGraph.holds_of_mem h.indexed hr
  simp only [roots, hfound, plannedRoots, plannedIds, List.map_append]
  rfl

/-! ## Being one of them -/

theorem mem_inDisplayOrder : r ∈ inDisplayOrder resources ↔ r ∈ resources :=
  (sortOn_perm ..).mem_iff

theorem mem_plannedIds : id ∈ plannedIds resources ↔ ∃ r ∈ resources, r.id = id := by
  simp [plannedIds, mem_inDisplayOrder]

theorem mem_plannedIds_filter (h : Indexed g) {p : Resource → Bool} :
    id ∈ plannedIds (g.resources.toList.filter p) ↔ ∃ r, g.Holds r ∧ p r = true ∧ r.id = id := by
  simp only [mem_plannedIds, List.mem_filter]
  constructor
  · rintro ⟨r, ⟨hmem, hp⟩, rfl⟩
    exact ⟨r, ResourceGraph.holds_of_mem h hmem, hp, rfl⟩
  · rintro ⟨r, hr, hp, rfl⟩
    exact ⟨r, ⟨ResourceGraph.mem_resources_iff.2 ⟨r.id, hr⟩, hp⟩, rfl⟩

theorem mem_rootConcepts (h : Indexed g) : id ∈ plannedIds (rootConcepts g) ↔
    ∃ r, g.Holds r ∧ g.isRootConcept r = true ∧ r.id = id :=
  mem_plannedIds_filter h

theorem mem_rootSchemes (h : Indexed g) : id ∈ plannedIds (rootSchemes g) ↔
    ∃ r, g.Holds r ∧ (r.kind = .conceptScheme ∧ g.configuration.conceptSchemes = true) ∧
      r.id = id := by
  simp only [rootSchemes, mem_plannedIds_filter h, Bool.and_eq_true, decide_eq_true_eq]

theorem mem_rootCollections (h : Indexed g) : id ∈ plannedIds (rootCollections g) ↔
    ∃ r, g.Holds r ∧ (r.kind.isCollection = true ∧ g.configuration.collections = true ∧
      r.links.inCollections.isEmpty = true) ∧ r.id = id := by
  simp only [rootCollections, mem_plannedIds_filter h, Bool.and_eq_true, and_assoc]

/-- A root concept is a concept that is shown outside all schemes. -/
theorem outside_of_isRootConcept (hroot : g.isRootConcept r = true) :
    r.kind = .concept ∧ g.shownOutside r.id = true := by
  simp only [ResourceGraph.isRootConcept, Bool.and_eq_true, beq_iff_eq] at hroot
  exact hroot.1.1

/-- Nothing outside all schemes is broader than a root concept. -/
theorem inside_of_broader (h : Sound g) (hroot : g.isRootConcept r = true)
    (hid : id ∈ r.links.broader) : g.shownOutside id = false := by
  simp only [ResourceGraph.isRootConcept, Bool.and_eq_true, List.all_eq_true] at hroot
  have hinside := hroot.1.2 id hid
  rwa [← shownOutside_eq h, Bool.not_eq_true'] at hinside

/-- Unless collections are shown without schemes, a concept to which nothing outside all schemes
leads is a root, or a member of a collection below which nothing is outside all schemes. -/
theorem isRootConcept_or_member (h : Sound g)
    (hmode : g.configuration.conceptSchemes = true ∨ g.configuration.collections = false)
    (hkind : r.kind = .concept) (houtside : g.shownOutside r.id = true)
    (habove : ∀ b ∈ r.links.broader, g.shownOutside b = false) :
    g.isRootConcept r = true ∨
      (∃ k, k ∈ r.links.inCollections) ∧ ∀ n ∈ r.links.narrower, g.shownOutside n = false := by
  have htop : r.links.broader.toList.all (fun b => !g.shownOutside b) = true :=
    List.all_eq_true.2 fun b hb => by rw [habove b hb]; rfl
  by_cases hroot : g.isRootConcept r = true
  · exact .inl hroot
  · -- only the last condition of a root can fail
    rw [Bool.not_eq_true] at hroot
    simp only [ResourceGraph.isRootConcept, hkind, houtside, htop, beq_self_eq_true, Bool.true_and,
      Bool.or_eq_false_iff, Bool.not_eq_false', ← shownOutside_eq h] at hroot
    obtain ⟨⟨hshown, hinSome⟩, hbelow⟩ := hroot
    have hschemes : g.configuration.conceptSchemes = true :=
      hmode.resolve_right (by rw [hshown]; exact Bool.noConfusion)
    rw [hschemes, Bool.true_and, List.any_eq_false] at hbelow
    refine .inr ⟨List.isEmpty_eq_false_iff_exists_mem.1 hinSome, fun n hn => ?_⟩
    exact Bool.eq_false_iff.2 (hbelow n hn)

/-- A resource can be shown at the top unless it is a concept that is shown elsewhere. -/
theorem apt_of_root (hr : g.Holds r) (hroot : r.kind = .concept → g.shownOutside r.id = true) :
    Apt g [] { target := r.id } := by
  refine ⟨hr.lt_size, ?_, ?_, fun parent hparent => by cases hparent⟩
  · show none = if _ then (nearestContext? []).map _ else none
    split <;> rfl
  · intro s hs hsame hkind
    obtain rfl := hs.eq hr hsame
    exact hroot hkind

theorem apt_of_rootConcept (h : Indexed g) (hid : id ∈ plannedIds (rootConcepts g)) :
    Apt g [] { target := id } := by
  obtain ⟨r, hr, hroot, rfl⟩ := (mem_rootConcepts h).1 hid
  exact apt_of_root hr fun _ => (outside_of_isRootConcept hroot).2

theorem apt_of_rootScheme (h : Indexed g) (hid : id ∈ plannedIds (rootSchemes g)) :
    Apt g [] { target := id } := by
  obtain ⟨r, hr, ⟨hscheme, _⟩, rfl⟩ := (mem_rootSchemes h).1 hid
  refine apt_of_root hr fun hconcept => ?_
  rw [hscheme] at hconcept
  cases hconcept

theorem apt_of_rootCollection (h : Indexed g) (hid : id ∈ plannedIds (rootCollections g)) :
    Apt g [] { target := id } := by
  obtain ⟨r, hr, ⟨hcollection, _⟩, rfl⟩ := (mem_rootCollections h).1 hid
  refine apt_of_root hr fun hconcept => ?_
  rw [hconcept] at hcollection
  cases hcollection

/-- All roots can be shown at the top. -/
theorem apt_of_mem_roots (h : Indexed g) (hid : id ∈ plannedRoots g) :
    Apt g [] { target := id } := by
  rcases mem_plannedRoots.1 hid with hconcept | hscheme | hcollection
  · exact apt_of_rootConcept h hconcept
  · exact apt_of_rootScheme h hscheme
  · exact apt_of_rootCollection h hcollection

/-! ## No repetitions -/

theorem map_id_resources (h : Indexed g) :
    g.resources.toList.map (·.id) = List.range g.size := by
  refine List.ext_getElem? fun i => ?_
  rw [List.getElem?_map, Array.getElem?_toList]
  by_cases hi : i < g.size
  · obtain ⟨r, hr⟩ := ResourceGraph.exists_resource hi
    rw [hr, List.getElem?_range hi, Option.map_some, h.id_eq i r hr]
  · rw [ResourceGraph.get_of_size_le (Nat.le_of_not_lt hi), Option.map_none]
    exact (List.getElem?_eq_none (by simpa using hi)).symm

theorem nodup_plannedIds (h : Indexed g) (p : Resource → Bool) :
    (plannedIds (g.resources.toList.filter p)).Nodup := by
  have hperm : (plannedIds (g.resources.toList.filter p)).Perm
      ((g.resources.toList.filter p).map (·.id)) := (sortOn_perm ..).map _
  refine hperm.nodup_iff.2 (List.Nodup.sublist (List.filter_sublist.map _) ?_)
  rw [map_id_resources h]
  exact List.nodup_range

/-- No root is listed twice, since the groups are of different kinds. -/
theorem nodup_roots (h : Indexed g) : (plannedRoots g).Nodup := by
  have hschemes : ∀ id ∈ plannedIds (rootSchemes g), g.kindOf id = .conceptScheme := by
    intro id hid
    obtain ⟨r, hr, ⟨hkind, _⟩, rfl⟩ := (mem_rootSchemes h).1 hid
    exact hr.kindOf.trans hkind
  have hconcepts : ∀ id ∈ plannedIds (rootConcepts g), g.kindOf id = .concept := by
    intro id hid
    obtain ⟨r, hr, hroot, rfl⟩ := (mem_rootConcepts h).1 hid
    exact hr.kindOf.trans (outside_of_isRootConcept hroot).1
  have hcollections : ∀ id ∈ plannedIds (rootCollections g), (g.kindOf id).isCollection = true := by
    intro id hid
    obtain ⟨r, hr, ⟨hkind, _⟩, rfl⟩ := (mem_rootCollections h).1 hid
    rw [hr.kindOf]
    exact hkind
  -- the three groups have different kinds, so that it is enough to look at each
  refine List.nodup_append.2 ⟨List.nodup_append.2 ⟨nodup_plannedIds h _, nodup_plannedIds h _, ?_⟩,
    nodup_plannedIds h _, ?_⟩
  · rintro id hid _ hscheme rfl
    have hkind := hconcepts id hid
    rw [hschemes id hscheme] at hkind
    cases hkind
  · rintro id hid _ hcollection rfl
    have hkind := hcollections id hcollection
    rcases List.mem_append.1 hid with hid | hid
    · rw [hconcepts id hid] at hkind
      cases hkind
    · rw [hschemes id hid] at hkind
      cases hkind

end Traversal

end Thesaurus
