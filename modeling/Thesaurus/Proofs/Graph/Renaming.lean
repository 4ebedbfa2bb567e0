import Mathlib.Logic.Equiv.Defs
import Mathlib.Data.List.Nodup
import Thesaurus.Proofs.Graph.Sound

/-!
# Renaming resources

A graph can hold the same resources under other ids. Sets of ids are then listed in another order,
but have the renamed members.

- `IdSet.renamed`: the new ids of a set, with what this does to each operation.
- `Resource.renamed`: a resource with its own id and its links renamed.
- `Renames`: whether one graph holds the renamed resources of another.
- `Renames.kindOf`, `Renames.linksOf`: what is read from the one and from the other.
-/

namespace Thesaurus

variable {σ : ResourceId ≃ ResourceId}

namespace IdSet

/-- The set of the new ids. -/
def renamed (σ : ResourceId ≃ ResourceId) (s : IdSet) : IdSet :=
  s.filterMap fun id => some (σ id)

variable {s t : IdSet} {id : ResourceId}

theorem mem_renamed_iff : id ∈ s.renamed σ ↔ σ.symm id ∈ s := by
  rw [renamed, mem_filterMap]
  constructor
  · rintro ⟨old, hold, hsame⟩
    rw [Option.some.injEq] at hsame
    rwa [← hsame, Equiv.symm_apply_apply]
  · intro h
    exact ⟨σ.symm id, h, by rw [Equiv.apply_symm_apply]⟩

@[simp] theorem mem_renamed : σ id ∈ s.renamed σ ↔ id ∈ s := by
  rw [mem_renamed_iff, Equiv.symm_apply_apply]

/-- A renamed set has the new ids, though in its own order. -/
theorem toList_renamed : (s.renamed σ).toList.Perm (s.toList.map σ) := by
  refine (List.perm_ext_iff_of_nodup (nodup _) (s.nodup.map σ.injective)).2 fun id => ?_
  rw [← mem_def, mem_renamed_iff, List.mem_map]
  constructor
  · intro h
    exact ⟨σ.symm id, h, Equiv.apply_symm_apply ..⟩
  · rintro ⟨old, hold, rfl⟩
    rwa [Equiv.symm_apply_apply]

@[simp] theorem isEmpty_renamed : (s.renamed σ).isEmpty = s.isEmpty := by
  have hlength := (toList_renamed (σ := σ) (s := s)).length_eq
  rw [List.length_map] at hlength
  rw [isEmpty, isEmpty, Bool.eq_iff_iff, List.isEmpty_iff_length_eq_zero,
    List.isEmpty_iff_length_eq_zero, hlength]

/-- A test that new ids pass when the old ones did selects the same. -/
theorem filter_renamed {keep keep' : ResourceId → Bool}
    (h : ∀ id ∈ s, keep' (σ id) = keep id) :
    (s.renamed σ).filter keep' = (s.filter keep).renamed σ := by
  refine ext fun id => ?_
  obtain ⟨old, rfl⟩ := σ.surjective id
  rw [mem_renamed, mem_filter, mem_filter, mem_renamed]
  exact and_congr_right fun hold => by rw [h old hold]

theorem inter_renamed : (s.renamed σ).inter (t.renamed σ) = (s.inter t).renamed σ :=
  filter_renamed fun _ _ => decide_eq_decide.2 mem_renamed

theorem erase_renamed : (s.renamed σ).erase (σ id) = (s.erase id).renamed σ := by
  refine filter_renamed fun other _ => ?_
  rw [bne, bne, Bool.eq_iff_iff]
  simp

end IdSet

/-! ## Resources -/

/-- A resource with its own id and its links renamed. -/
def Resource.renamed (σ : ResourceId ≃ ResourceId) (r : Resource) : Resource :=
  { r with id := σ r.id, links := r.links.rename fun id => some (σ id) }

namespace Resource

variable {r : Resource}

@[simp] theorem id_renamed : (r.renamed σ).id = σ r.id :=
  rfl

@[simp] theorem kind_renamed : (r.renamed σ).kind = r.kind :=
  rfl

theorem orderedMembers_renamed :
    (r.renamed σ).links.orderedMembers = r.links.orderedMembers.map (·.map σ) := by
  show r.links.orderedMembers.map (·.filterMap fun id => some (σ id)) = _
  congr 1
  funext ids
  exact congrFun List.filterMap_eq_map ids

end Resource

/-! ## Graphs -/

/-- Whether one graph holds the renamed resources of another, each at its new id, and is configured
in the same way. -/
structure Renames (σ : ResourceId ≃ ResourceId) (g g' : ResourceGraph) : Prop where
  configuration : g'.configuration = g.configuration
  get : ∀ id, g'.resources[σ id]? = g.resources[id]?.map (·.renamed σ)

namespace Renames

variable {g g' : ResourceGraph} {id : ResourceId} {r : Resource}

theorem kindOf (h : Renames σ g g') : g'.kindOf (σ id) = g.kindOf id := by
  rw [ResourceGraph.kindOf, ResourceGraph.kindOf, h.get]
  cases g.resources[id]? <;> rfl

theorem linksOf (h : Renames σ g g') :
    g'.linksOf (σ id) = (g.linksOf id).rename fun id => some (σ id) := by
  rw [ResourceGraph.linksOf, ResourceGraph.linksOf, h.get]
  cases g.resources[id]? <;> rfl

/-- Ids of resources are renamed to ids of resources. -/
theorem lt_size (h : Renames σ g g') : σ id < g'.size ↔ id < g.size := by
  have hget := h.get id
  constructor
  · intro hinside
    by_contra houtside
    obtain ⟨r, hr⟩ := ResourceGraph.exists_resource hinside
    rw [hr, ResourceGraph.get_of_size_le (Nat.le_of_not_lt houtside)] at hget
    cases hget
  · intro hinside
    obtain ⟨r, hr⟩ := ResourceGraph.exists_resource hinside
    rw [hr] at hget
    exact ResourceGraph.lt_size hget

end Renames

end Thesaurus
