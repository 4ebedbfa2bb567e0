/-!
# Sets of resource ids

A resource is named by its index in the graph's array. A set of ids is an ascending list, so two
sets with the same members are equal and a listing of a set has one order.

- `IdSet`: the type, with `insert`, `erase`, `filter` and `filterMap`.
- `IdSet.mem_insert`, `IdSet.mem_erase`, `IdSet.mem_filter`, `IdSet.mem_filterMap`: what each
  operation does to membership.
- `IdSet.ext`: sets are equal when their members are.
-/

namespace Thesaurus

/-- The index of a resource in the graph that holds it. The program keeps ids in 32 bits: what is
said of ids here is said of it for graphs of fewer than `2 ^ 32` resources. -/
abbrev ResourceId := Nat

/-- A finite set of resource ids. `toList` lists each member once, before the larger ones. -/
structure IdSet where
  toList : List ResourceId
  ascending : toList.Pairwise (· < ·)
deriving DecidableEq

namespace IdSet

/-- The set without members. -/
def empty : IdSet := ⟨[], List.Pairwise.nil⟩

instance : EmptyCollection IdSet := ⟨empty⟩

instance : Inhabited IdSet := ⟨∅⟩

instance : Membership ResourceId IdSet := ⟨fun s id => id ∈ s.toList⟩

instance (id : ResourceId) (s : IdSet) : Decidable (id ∈ s) :=
  inferInstanceAs (Decidable (id ∈ s.toList))

/-- Whether the set has no member. -/
def isEmpty (s : IdSet) : Bool :=
  s.toList.isEmpty

/-- The number of members. -/
def size (s : IdSet) : Nat :=
  s.toList.length

theorem mem_def {s : IdSet} {id : ResourceId} : id ∈ s ↔ id ∈ s.toList := Iff.rfl

@[simp] theorem not_mem_empty (id : ResourceId) : id ∉ (∅ : IdSet) :=
  List.not_mem_nil

/-- No member is listed twice. -/
theorem nodup (s : IdSet) : s.toList.Nodup :=
  s.ascending.imp fun hlt => Nat.ne_of_lt hlt

/-! ## Adding a member -/

/-- Puts an id into its place in an ascending list, unless it is there already. -/
def insertInto (id : ResourceId) : List ResourceId → List ResourceId
  | [] => [id]
  | first :: rest =>
    if id < first then id :: first :: rest
    else if id = first then first :: rest
    else first :: insertInto id rest

theorem mem_insertInto {id other : ResourceId} {ids : List ResourceId} :
    other ∈ insertInto id ids ↔ other = id ∨ other ∈ ids := by
  induction ids with
  | nil => simp [insertInto]
  | cons first rest ih =>
    unfold insertInto
    split
    · simp
    · split
      · next h => subst h; simp
      · simp only [List.mem_cons, ih]
        exact or_left_comm

theorem insertInto_ascending {id : ResourceId} {ids : List ResourceId}
    (h : ids.Pairwise (· < ·)) : (insertInto id ids).Pairwise (· < ·) := by
  induction ids with
  | nil => simp [insertInto]
  | cons first rest ih =>
    obtain ⟨habove, hascending⟩ := List.pairwise_cons.1 h
    unfold insertInto
    split
    · next hlt =>
      refine List.pairwise_cons.2 ⟨fun other hmem => ?_, h⟩
      rcases List.mem_cons.1 hmem with rfl | hmem
      · exact hlt
      · exact Nat.lt_trans hlt (habove other hmem)
    · split
      · exact h
      · next hnotLt hne =>
        refine List.pairwise_cons.2 ⟨fun other hmem => ?_, ih hascending⟩
        rcases mem_insertInto.1 hmem with rfl | hmem
        · exact Nat.lt_of_le_of_ne (Nat.le_of_not_lt hnotLt) (Ne.symm hne)
        · exact habove other hmem

/-- The set with one more member. -/
def insert (id : ResourceId) (s : IdSet) : IdSet :=
  ⟨insertInto id s.toList, insertInto_ascending s.ascending⟩

@[simp] theorem mem_insert {id other : ResourceId} {s : IdSet} :
    other ∈ s.insert id ↔ other = id ∨ other ∈ s :=
  mem_insertInto

/-- The set of the listed ids. -/
def ofList (ids : List ResourceId) : IdSet :=
  ids.foldl (fun s id => s.insert id) ∅

/-- The set of all ids below a bound. -/
def below (bound : Nat) : IdSet :=
  ⟨List.range bound, List.pairwise_lt_range⟩

@[simp] theorem mem_below {id : ResourceId} {bound : Nat} : id ∈ below bound ↔ id < bound :=
  List.mem_range

/-! ## Taking members away -/

/-- The members that satisfy a test. -/
def filter (keep : ResourceId → Bool) (s : IdSet) : IdSet :=
  ⟨s.toList.filter keep, s.ascending.filter keep⟩

@[simp] theorem mem_filter {keep : ResourceId → Bool} {id : ResourceId} {s : IdSet} :
    id ∈ s.filter keep ↔ id ∈ s ∧ keep id = true :=
  List.mem_filter

/-- The members of both sets. -/
def inter (s t : IdSet) : IdSet :=
  s.filter (· ∈ t)

@[simp] theorem mem_inter {id : ResourceId} {s t : IdSet} :
    id ∈ s.inter t ↔ id ∈ s ∧ id ∈ t := by
  simp [inter]

/-- The set without one member. -/
def erase (id : ResourceId) (s : IdSet) : IdSet :=
  s.filter (· != id)

@[simp] theorem mem_erase {id other : ResourceId} {s : IdSet} :
    other ∈ s.erase id ↔ other ∈ s ∧ other ≠ id := by
  simp [erase]

theorem toList_erase {id : ResourceId} {s : IdSet} : (s.erase id).toList = s.toList.erase id :=
  (s.nodup.erase_eq_filter id).symm

/-- Taking a member away makes a set smaller. -/
theorem size_erase_lt {id : ResourceId} {s : IdSet} (h : id ∈ s) : (s.erase id).size < s.size := by
  have : (s.toList.filter (· != id)).length < s.toList.length := by
    apply List.length_filter_lt_length_iff_exists.2
    exact ⟨id, h, by simp⟩
  exact this

/-! ## Renaming members -/

/-- The set of the new names of the members that have one. -/
def filterMap (rename : ResourceId → Option ResourceId) (s : IdSet) : IdSet :=
  ofList (s.toList.filterMap rename)

theorem mem_foldl_insert {id : ResourceId} {ids : List ResourceId} {s : IdSet} :
    id ∈ ids.foldl (fun s id => s.insert id) s ↔ id ∈ ids ∨ id ∈ s := by
  induction ids generalizing s with
  | nil => simp
  | cons first rest ih =>
    simp only [List.foldl_cons, ih, mem_insert, List.mem_cons]
    constructor
    · rintro (h | h | h)
      · exact .inl (.inr h)
      · exact .inl (.inl h)
      · exact .inr h
    · rintro ((h | h) | h)
      · exact .inr (.inl h)
      · exact .inl h
      · exact .inr (.inr h)

@[simp] theorem mem_ofList {id : ResourceId} {ids : List ResourceId} :
    id ∈ ofList ids ↔ id ∈ ids := by
  simp [ofList, mem_foldl_insert]

@[simp] theorem mem_filterMap {rename : ResourceId → Option ResourceId} {id : ResourceId}
    {s : IdSet} : id ∈ s.filterMap rename ↔ ∃ old ∈ s, rename old = some id :=
  mem_ofList.trans List.mem_filterMap

/-! ## Equality -/

theorem eq_of_mem_iff : ∀ {ids other : List ResourceId}, ids.Pairwise (· < ·) →
    other.Pairwise (· < ·) → (∀ id, id ∈ ids ↔ id ∈ other) → ids = other
  | [], [], _, _, _ => rfl
  | [], b :: _, _, _, h => absurd ((h b).2 List.mem_cons_self) List.not_mem_nil
  | a :: _, [], _, _, h => absurd ((h a).1 List.mem_cons_self) List.not_mem_nil
  | a :: as, b :: bs, ha, hb, h => by
    obtain ⟨haboveA, hascA⟩ := List.pairwise_cons.1 ha
    obtain ⟨haboveB, hascB⟩ := List.pairwise_cons.1 hb
    have hhead : a = b := by
      rcases List.mem_cons.1 ((h a).1 List.mem_cons_self) with heq | hmem
      · exact heq
      · rcases List.mem_cons.1 ((h b).2 List.mem_cons_self) with heq | hmem'
        · exact heq.symm
        · exact absurd (haboveB a hmem) (Nat.lt_asymm (haboveA b hmem'))
    subst hhead
    refine congrArg (a :: ·) (eq_of_mem_iff hascA hascB fun id => ?_)
    constructor
    · intro hmem
      rcases List.mem_cons.1 ((h id).1 (List.mem_cons_of_mem a hmem)) with rfl | hmem'
      · exact absurd (haboveA id hmem) (Nat.lt_irrefl id)
      · exact hmem'
    · intro hmem
      rcases List.mem_cons.1 ((h id).2 (List.mem_cons_of_mem a hmem)) with rfl | hmem'
      · exact absurd (haboveB id hmem) (Nat.lt_irrefl id)
      · exact hmem'

/-- Sets with the same members are equal. -/
theorem ext {s t : IdSet} (h : ∀ id, id ∈ s ↔ id ∈ t) : s = t := by
  obtain ⟨ids, hascending⟩ := s
  obtain ⟨other, hascending'⟩ := t
  have : ids = other := eq_of_mem_iff hascending hascending' h
  subst this
  rfl

end IdSet

end Thesaurus
