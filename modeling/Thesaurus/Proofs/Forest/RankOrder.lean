import Thesaurus.Proofs.Forest.Ranking
import Thesaurus.Proofs.Notation.Order

/-!
# Ranks and the order of notations

Ranks say where siblings would stand in the order of their notations, and in that order they stand
there, at every depth. What is in order stays as it is when it is put into that order again, and
ranks that were given before do not matter.

- `Alike.faulty_iff`: forests that are alike can be ranked alike.
- `Ranking.RanksAgree`: whether ranks say where nodes stand in another forest.
- `Ranking.ranked_agree`: the ranks of a forest agree with the order of its notations.
- `Ranking.ranked_ranked`: ranking twice is ranking once where it is so for single lists.
- `Ranking.ranks_stable`: all this as one statement about ranking.
-/

namespace Thesaurus

open Notation (Axis Format Sorting compareOptional)

/-! ## What can be ranked -/

/-- Roots of alike forests show the same up to order and marks. -/
theorem Alike.unmarked_perm {f f' : Forest} (h : Alike f f') :
    (f.map (·.value.unmarked)).Perm (f'.map (·.value.unmarked)) := by
  induction h with
  | nil => exact List.Perm.refl _
  | cons hentry _ _ _ hrest =>
    simp only [List.map_cons, Tree.value_node, hentry]
    exact hrest.cons _
  | perm hperm => exact hperm.map _
  | trans _ _ ih ih' => exact ih.trans ih'

namespace Ranking

variable {sorting : Sorting} {format : Format} {siblings siblings' f : Forest} {t : Tree Entry}

theorem isPositioned_of_perm
    (h : (siblings.map (·.value.unmarked)).Perm (siblings'.map (·.value.unmarked))) :
    isPositioned siblings = isPositioned siblings' := by
  have hunmarked : ∀ siblings : Forest, isPositioned siblings =
      (siblings.map (·.value.unmarked)).any (·.position.isSome) := by
    intro siblings
    rw [List.any_map]
    rfl
  rw [hunmarked, hunmarked, h.any_eq]

theorem unreadable_of_perm (sorting : Sorting)
    (h : (siblings.map (·.value.unmarked)).Perm (siblings'.map (·.value.unmarked))) :
    Unreadable sorting siblings ↔ Unreadable sorting siblings' := by
  have hunmarked : ∀ siblings : Forest, Unreadable sorting siblings ↔
      isPositioned siblings = false ∧ ∃ e ∈ siblings.map (·.value.unmarked), ∃ text fault,
        e.view.notationText = some text ∧ sorting.format.parse text e.iri = .error fault := by
    intro siblings
    simp only [List.mem_map, exists_exists_and_eq_and]
    rfl
  simp only [hunmarked, isPositioned_of_perm h, h.mem_iff]

end Ranking

/-- Forests that are alike can be ranked alike. -/
theorem Alike.faulty_iff {sorting : Sorting} {f f' : Forest} (h : Alike f f') :
    Ranking.Faulty sorting f ↔ Ranking.Faulty sorting f' := by
  have hbelow : (∃ t ∈ f, Ranking.Faulty sorting t.children) ↔
      ∃ t ∈ f', Ranking.Faulty sorting t.children := by
    induction h with
    | nil => exact Iff.rfl
    | cons _ hchildren _ hbelow hrest =>
      have hroot := Ranking.unreadable_of_perm sorting hchildren.unmarked_perm
      simp only [List.exists_mem_cons_iff, Tree.children_node, hrest]
      rw [Ranking.faulty_iff, hroot, hbelow, ← Ranking.faulty_iff]
    | perm hperm => simp only [hperm.mem_iff]
    | trans _ _ ih ih' => exact ih.trans ih'
  rw [Ranking.faulty_iff, Ranking.faulty_iff, hbelow,
    Ranking.unreadable_of_perm sorting h.unmarked_perm]

namespace Ranking

variable {sorting : Sorting} {format : Format} {siblings siblings' f : Forest} {t : Tree Entry}

/-! ## Arranged siblings -/

/-- Arranged siblings have positions if they had before. -/
theorem isPositioned_arrange : isPositioned (arrange sorting siblings) = isPositioned siblings :=
  isPositioned_of_perm (arrange_alike sorting siblings).unmarked_perm

theorem arrange_byNotation (hnone : isPositioned siblings = false) :
    arrange ⟨format, .byNotation⟩ siblings =
      (byNotation ⟨format, .byNotation⟩ siblings).map (mapRoot inNotationOrder) := by
  simp only [arrange, hnone]

theorem arrange_positioned_byNotation (hpositioned : isPositioned siblings = true) :
    arrange ⟨format, .byNotation⟩ siblings = siblings.map (mapRoot inNotationOrder) := by
  simp only [arrange, hpositioned]

theorem arrange_positioned_byLabel (hpositioned : isPositioned siblings = true) :
    arrange ⟨format, .byLabel⟩ siblings = siblings.map (mapRoot (inLabelOrder none)) := by
  simp only [arrange, hpositioned]

/-- In the order of labels, siblings stay where they are. -/
theorem getElem?_arrange_byLabel (hnone : isPositioned siblings = false) (i : Nat) :
    (arrange ⟨format, .byLabel⟩ siblings)[i]? = siblings[i]?.map (mapRoot (inLabelOrder
      ((rankOrder ⟨format, .byLabel⟩ siblings).idxOf? i))) := by
  simp only [arrange, hnone]
  rw [List.getElem?_map, List.getElem?_zipIdx, Option.map_map, Nat.zero_add]
  rfl

/-- Marks do not change how a node is read. -/
theorem keyOf_mapRoot {change : Entry → Entry} (hview : ∀ e, (change e).view = e.view) :
    keyOf sorting (mapRoot change t) = keyOf sorting t := by
  simp only [keyOf, readKey, mapRoot, Tree.value_node, Entry.iri, hview]

/-- The order of siblings depends on how they are read only. -/
theorem rankOrder_congr (h : siblings.map (keyOf sorting) = siblings'.map (keyOf sorting)) :
    rankOrder sorting siblings = rankOrder sorting siblings' := by
  rw [← orderOf_keys, ← orderOf_keys, h]

/-- At each place of the order stands the node with the index there. -/
theorem getElem?_byNotation (r : Nat) : (byNotation sorting siblings)[r]? =
    (rankOrder sorting siblings)[r]?.bind (siblings[·]?) := by
  obtain ⟨indexed, hnodes, hindices, hhere⟩ := exists_indexed sorting siblings
  rw [← hnodes, ← hindices, List.getElem?_map, List.getElem?_map]
  cases hfound : indexed[r]? with
  | none => rfl
  | some pair => exact (hhere pair (List.mem_of_getElem? hfound)).symm

/-- The rank of an index is its place in the order. -/
theorem idxOf?_rankOrder {i r : Nat} : (rankOrder sorting siblings).idxOf? i = some r ↔
    (rankOrder sorting siblings)[r]? = some i := by
  rw [List.idxOf?_eq_some_iff, List.getElem?_eq_some_iff]
  refine exists_congr fun hinside => and_iff_left_of_imp ?_
  rintro rfl j hearlier hsame
  exact Nat.ne_of_lt hearlier ((rankOrder_nodup.getElem_inj_iff).1 hsame)

/-- Each index has a place in the order. -/
theorem exists_rank (sorting : Sorting) {i : Nat} (hi : i < siblings.length) :
    ∃ r : Nat, (rankOrder sorting siblings)[r]? = some i :=
  List.mem_iff_getElem?.1 (rankOrder_perm.mem_iff.2 (List.mem_range.2 hi))

/-! ## Ranks and places -/

/-- Whether the ranks of a forest say where its nodes stand in another one, which is in the order of
the notations. Siblings with positions stand where they stood; others are given each place as a rank
once, and stand there. -/
inductive RanksAgree : Forest → Forest → Prop where
  | positioned {labelled sorted : Forest} (hlabelled : isPositioned labelled = true)
      (hsorted : isPositioned sorted = true) (length : sorted.length = labelled.length)
      (nodes : ∀ (i : Nat) (t : Tree Entry), labelled[i]? = some t →
        ∃ s : Tree Entry, sorted[i]? = some s ∧ s.value = inNotationOrder t.value)
      (below : ∀ (i : Nat) (t s : Tree Entry), labelled[i]? = some t → sorted[i]? = some s →
        RanksAgree t.children s.children) : RanksAgree labelled sorted
  | unpositioned {labelled sorted : Forest} (hlabelled : isPositioned labelled = false)
      (hsorted : isPositioned sorted = false) (length : sorted.length = labelled.length)
      (ranks : (labelled.map (·.value.notationRank)).Perm
        ((List.range labelled.length).map some))
      (nodes : ∀ t ∈ labelled, ∀ r, t.value.notationRank = some r →
        ∃ s : Tree Entry, sorted[r]? = some s ∧ s.value = inNotationOrder t.value)
      (below : ∀ t ∈ labelled, ∀ r, ∀ s : Tree Entry, t.value.notationRank = some r →
        sorted[r]? = some s → RanksAgree t.children s.children) : RanksAgree labelled sorted

/-- A property of what is below all nodes of a forest, and of the forest if it is so for its roots,
holds of every forest. -/
theorem forest_induct {P : Forest → Prop} (step : ∀ f : Forest, (∀ t ∈ f, P t.children) → P f)
    (f : Forest) : P f := by
  have hbelow : ∀ t : Tree Entry, P t.children := by
    intro t
    induction t using Tree.induct with
    | node e children ih => exact step children ih
  exact step f fun t _ => hbelow t

theorem length_ranked : (ranked sorting f).length = f.length :=
  (ranked_alike sorting f).length_eq

theorem isPositioned_ranked : isPositioned (ranked sorting f) = isPositioned f :=
  isPositioned_of_perm (ranked_alike sorting f).unmarked_perm

/-- The rank that a node is given on the axis of labels. -/
theorem rank_ranked (format : Format) (hnone : isPositioned f = false) {i : Nat}
    (ht : f[i]? = some t) :
    ∃ r : Nat, (rankOrder ⟨format, .byLabel⟩ f)[r]? = some i ∧
      (ranked ⟨format, .byLabel⟩ f)[i]? = some (mapBelow (ranked ⟨format, .byLabel⟩)
        (mapRoot (inLabelOrder (some r)) t)) := by
  obtain ⟨r, hplace⟩ := exists_rank ⟨format, .byLabel⟩ (List.getElem?_eq_some_iff.1 ht).1
  refine ⟨r, hplace, ?_⟩
  rw [ranked_eq, List.getElem?_map, getElem?_arrange_byLabel hnone, ht, idxOf?_rankOrder.2 hplace]
  rfl

/-- The ranks of siblings are their places. -/
theorem ranks_perm (hnone : isPositioned f = false) :
    ((ranked ⟨format, .byLabel⟩ f).map (·.value.notationRank)).Perm
      ((List.range f.length).map some) := by
  have hplaces : (ranked ⟨format, .byLabel⟩ f).map (·.value.notationRank) =
      (List.range f.length).map ((rankOrder ⟨format, .byLabel⟩ f).idxOf? ·) := by
    refine List.ext_getElem? fun i => ?_
    rw [List.getElem?_map, List.getElem?_map]
    by_cases hinside : i < f.length
    · obtain ⟨r, hplace, hhere⟩ := rank_ranked format hnone
        (List.getElem?_eq_getElem hinside)
      rw [hhere, List.getElem?_range hinside, Option.map_some, Option.map_some,
        idxOf?_rankOrder.2 hplace]
      rfl
    · have houtside := Nat.le_of_not_lt hinside
      rw [List.getElem?_eq_none (by simpa [length_ranked] using houtside),
        List.getElem?_eq_none (by simpa using houtside)]
      rfl
  -- read in the order of the notations, the ranks are the places
  have hinOrder : (rankOrder ⟨format, .byLabel⟩ f).map
      ((rankOrder ⟨format, .byLabel⟩ f).idxOf? ·) = (List.range f.length).map some := by
    have hperm : (rankOrder ⟨format, .byLabel⟩ f).Perm (List.range f.length) := rankOrder_perm
    have hlength := hperm.length_eq
    refine List.ext_getElem? fun r => ?_
    rw [List.getElem?_map, List.getElem?_map]
    cases hplace : (rankOrder ⟨format, .byLabel⟩ f)[r]? with
    | none =>
      rw [List.getElem?_eq_none (hlength ▸ List.getElem?_eq_none_iff.1 hplace)]
      rfl
    | some i =>
      have hinside := (List.getElem?_eq_some_iff.1 hplace).1
      rw [hlength, List.length_range] at hinside
      rw [List.getElem?_range hinside, Option.map_some, Option.map_some, idxOf?_rankOrder.2 hplace]
  rw [hplaces, ← hinOrder]
  exact rankOrder_perm.symm.map _

/-- The ranks of a forest agree with the order of its notations. -/
theorem ranked_agree (format : Format) (f : Forest) :
    RanksAgree (ranked ⟨format, .byLabel⟩ f) (ranked ⟨format, .byNotation⟩ f) := by
  induction f using forest_induct with
  | step f ih =>
    have hlength : (ranked ⟨format, .byNotation⟩ f).length =
        (ranked ⟨format, .byLabel⟩ f).length := length_ranked.trans length_ranked.symm
    cases hpositioned : isPositioned f with
    | true =>
      have hlabelled : ∀ i : Nat, (ranked ⟨format, .byLabel⟩ f)[i]? = f[i]?.map fun t =>
          mapBelow (ranked ⟨format, .byLabel⟩) (mapRoot (inLabelOrder none) t) := by
        intro i
        rw [ranked_eq, arrange_positioned_byLabel hpositioned, List.map_map, List.getElem?_map]
        rfl
      have hsorted : ∀ i : Nat, (ranked ⟨format, .byNotation⟩ f)[i]? = f[i]?.map fun t =>
          mapBelow (ranked ⟨format, .byNotation⟩) (mapRoot inNotationOrder t) := by
        intro i
        rw [ranked_eq, arrange_positioned_byNotation hpositioned, List.map_map, List.getElem?_map]
        rfl
      refine .positioned (isPositioned_ranked.trans hpositioned)
        (isPositioned_ranked.trans hpositioned) hlength (fun i t ht => ?_) fun i t s ht hs => ?_
      · rw [hlabelled] at ht
        obtain ⟨u, hu, rfl⟩ := Option.map_eq_some_iff.1 ht
        exact ⟨_, by rw [hsorted, hu]; rfl, rfl⟩
      · rw [hlabelled] at ht
        obtain ⟨u, hu, rfl⟩ := Option.map_eq_some_iff.1 ht
        rw [hsorted, hu, Option.map_some, Option.some.injEq] at hs
        subst hs
        exact ih u (List.mem_of_getElem? hu)
    | false =>
      -- a node and its rank come from one node of the forest
      have hranks : ∀ t ∈ ranked ⟨format, .byLabel⟩ f, ∀ r, t.value.notationRank = some r →
          ∃ u ∈ f, t = mapBelow (ranked ⟨format, .byLabel⟩) (mapRoot (inLabelOrder (some r)) u) ∧
            (ranked ⟨format, .byNotation⟩ f)[r]? =
              some (mapBelow (ranked ⟨format, .byNotation⟩) (mapRoot inNotationOrder u)) := by
        intro t ht r hr
        obtain ⟨i, hi⟩ := List.mem_iff_getElem?.1 ht
        have hinside := (List.getElem?_eq_some_iff.1 hi).1
        rw [length_ranked] at hinside
        have hu := List.getElem?_eq_getElem hinside
        obtain ⟨r', hplace, hhere⟩ := rank_ranked format hpositioned hu
        obtain rfl : _ = t := Option.some.inj (hhere.symm.trans hi)
        obtain rfl : r' = r := Option.some.inj hr
        refine ⟨f[i], List.getElem_mem hinside, rfl, ?_⟩
        have hplace' : (rankOrder ⟨format, .byNotation⟩ f)[r']? = some i := hplace
        rw [ranked_eq, arrange_byNotation hpositioned, List.map_map, List.getElem?_map,
          getElem?_byNotation, hplace', Option.bind_some, hu]
        rfl
      refine .unpositioned (isPositioned_ranked.trans hpositioned)
        (isPositioned_ranked.trans hpositioned) hlength ?_ (fun t ht r hr => ?_)
        fun t ht r s hr hs => ?_
      · rw [length_ranked]
        exact ranks_perm hpositioned
      · obtain ⟨u, _, rfl, hthere⟩ := hranks t ht r hr
        exact ⟨_, hthere, rfl⟩
      · obtain ⟨u, hu, rfl, hthere⟩ := hranks t ht r hr
        obtain rfl : _ = s := Option.some.inj (hthere.symm.trans hs)
        exact ih u hu

/-! ## Ranking twice -/

/-- Ranking in two ways, one after the other, is ranking in a third if it is so for every single
list of siblings. -/
theorem ranked_ranked {first next both : Sorting}
    (h : ∀ siblings, arrange next (arrange first siblings) = arrange both siblings) (f : Forest) :
    ranked next (ranked first f) = ranked both f := by
  induction f using forest_induct with
  | step f ih =>
    have harranged : ranked first f = (arrange first f).map (mapBelow (ranked first)) := ranked_eq
    have harrangedBoth : ranked both f = (arrange both f).map (mapBelow (ranked both)) := ranked_eq
    rw [harranged, ranked_eq, arrange_mapBelow, List.map_map, h, harrangedBoth]
    refine List.map_congr_left fun t ht => ?_
    obtain ⟨s, hs, _, _, hchildren⟩ := exists_of_mem_arrange ht
    show Tree.node t.value (ranked next (ranked first t.children)) =
      .node t.value (ranked both t.children)
    rw [hchildren, ih s hs]

/-- What is in the order of notations stays in it. -/
theorem arrange_byNotation_twice (siblings : Forest) :
    arrange ⟨format, .byNotation⟩ (arrange ⟨format, .byNotation⟩ siblings) =
      arrange ⟨format, .byNotation⟩ siblings := by
  cases hpositioned : isPositioned siblings with
  | true =>
    rw [arrange_positioned_byNotation (isPositioned_arrange.trans hpositioned),
      arrange_positioned_byNotation hpositioned, List.map_map]
    rfl
  | false =>
    have hsorted : byNotation ⟨format, .byNotation⟩
        ((byNotation ⟨format, .byNotation⟩ siblings).map (mapRoot inNotationOrder)) =
        (byNotation ⟨format, .byNotation⟩ siblings).map (mapRoot inNotationOrder) := by
      have hagain : byNotation ⟨format, .byNotation⟩ (byNotation ⟨format, .byNotation⟩ siblings) =
          byNotation ⟨format, .byNotation⟩ siblings := sortOn_sortOn siblings
      conv_rhs => rw [← hagain]
      exact sortOn_map fun _ _ => keyOf_mapRoot fun _ => rfl
    rw [arrange_byNotation (isPositioned_arrange.trans hpositioned), arrange_byNotation hpositioned,
      hsorted, List.map_map]
    rfl

/-- The order of siblings is read alike when they have ranks. -/
theorem rankOrder_arrange_byLabel (hnone : isPositioned siblings = false) :
    rankOrder sorting (arrange ⟨format, .byLabel⟩ siblings) = rankOrder sorting siblings := by
  refine rankOrder_congr (List.ext_getElem? fun i => ?_)
  rw [List.getElem?_map, List.getElem?_map, getElem?_arrange_byLabel hnone, Option.map_map]
  cases siblings[i]? with
  | none => rfl
  | some t => exact congrArg some (keyOf_mapRoot fun _ => rfl)

/-- Ranks that are given twice are given once. -/
theorem arrange_byLabel_twice (siblings : Forest) :
    arrange ⟨format, .byLabel⟩ (arrange ⟨format, .byLabel⟩ siblings) =
      arrange ⟨format, .byLabel⟩ siblings := by
  cases hpositioned : isPositioned siblings with
  | true =>
    rw [arrange_positioned_byLabel (isPositioned_arrange.trans hpositioned),
      arrange_positioned_byLabel hpositioned, List.map_map]
    rfl
  | false =>
    refine List.ext_getElem? fun i => ?_
    rw [getElem?_arrange_byLabel (isPositioned_arrange.trans hpositioned),
      rankOrder_arrange_byLabel hpositioned, getElem?_arrange_byLabel hpositioned, Option.map_map]
    refine congrArg (siblings[i]?.map ·) (funext fun t => ?_)
    simp [mapRoot, inLabelOrder, ← Option.or_assoc]

/-- Ranks do not matter for the order of notations, and are not kept in it. -/
theorem arrange_byNotation_byLabel (siblings : Forest) :
    arrange ⟨format, .byNotation⟩ (arrange ⟨format, .byLabel⟩ siblings) =
      arrange ⟨format, .byNotation⟩ siblings := by
  cases hpositioned : isPositioned siblings with
  | true =>
    rw [arrange_positioned_byNotation (isPositioned_arrange.trans hpositioned),
      arrange_positioned_byLabel hpositioned, arrange_positioned_byNotation hpositioned,
      List.map_map]
    rfl
  | false =>
    rw [arrange_byNotation (isPositioned_arrange.trans hpositioned), arrange_byNotation hpositioned]
    refine List.ext_getElem? fun r => ?_
    rw [List.getElem?_map, List.getElem?_map, getElem?_byNotation, getElem?_byNotation,
      rankOrder_arrange_byLabel hpositioned]
    cases (rankOrder ⟨format, .byNotation⟩ siblings)[r]? with
    | none => rfl
    | some i =>
      rw [Option.bind_some, Option.bind_some, getElem?_arrange_byLabel hpositioned, Option.map_map]
      rfl

/-- A forest whose notations can be read is ranked on both axes. The ranks on the axis of labels
say where each node stands on that of notations, at every depth; neither axis changes anything when
it is applied again, and the axis of labels leaves no trace under that of notations. -/
theorem ranks_stable (format : Format) (axis : Axis) (f : Forest)
    (h : (apply ⟨format, axis⟩ f).2 = none) :
    ∃ labelled sorted, apply ⟨format, .byLabel⟩ f = (labelled, none) ∧
      apply ⟨format, .byNotation⟩ f = (sorted, none) ∧ RanksAgree labelled sorted ∧
      apply ⟨format, .byLabel⟩ labelled = (labelled, none) ∧
      apply ⟨format, .byNotation⟩ sorted = (sorted, none) ∧
      apply ⟨format, .byNotation⟩ labelled = (sorted, none) := by
  -- what can be read does not depend on the axis
  have hreadable : ∀ axis, ¬ Faulty ⟨format, axis⟩ f := by
    obtain ⟨hreadable, _⟩ | ⟨_, _, hfailed⟩ := apply_cases ⟨format, axis⟩ f
    · exact fun _ => hreadable
    · rw [hfailed] at h
      cases h
  have happlied : ∀ axis f', Alike f' f →
      apply ⟨format, axis⟩ f' = (ranked ⟨format, axis⟩ f', none) := by
    intro axis f' halike
    obtain ⟨_, happlied⟩ | ⟨hfaulty, _⟩ := apply_cases ⟨format, axis⟩ f'
    · exact happlied
    · exact absurd (halike.faulty_iff.1 hfaulty) (hreadable axis)
  refine ⟨_, _, happlied _ _ (.refl f), happlied _ _ (.refl f), ranked_agree format f, ?_, ?_, ?_⟩
  · rw [happlied _ _ (ranked_alike _ f), ranked_ranked arrange_byLabel_twice]
  · rw [happlied _ _ (ranked_alike _ f), ranked_ranked arrange_byNotation_twice]
  · rw [happlied _ _ (ranked_alike _ f), ranked_ranked arrange_byNotation_byLabel]

/-- Two siblings of which the first has the later notation, and one below it without any. -/
def laterFirst : Forest := [
  .node { view := { iri := "urn:a", kind := .concept, notationText := some "1.10" } } [
    .leaf { view := { iri := "urn:c", kind := .concept } }],
  .leaf { view := { iri := "urn:b", kind := .concept, notationText := some "1.9" } }]

theorem ranks_stable_laterFirst : (apply ⟨.dotted, .byLabel⟩ laterFirst).2 = none ∧
    ∃ labelled sorted, apply ⟨.dotted, .byLabel⟩ laterFirst = (labelled, none) ∧
      apply ⟨.dotted, .byNotation⟩ laterFirst = (sorted, none) ∧ RanksAgree labelled sorted ∧
      apply ⟨.dotted, .byLabel⟩ labelled = (labelled, none) ∧
      apply ⟨.dotted, .byNotation⟩ sorted = (sorted, none) ∧
      apply ⟨.dotted, .byNotation⟩ labelled = (sorted, none) := by
  have hreadable : (apply ⟨.dotted, .byLabel⟩ laterFirst).2 = none := by decide +kernel
  exact ⟨hreadable, ranks_stable .dotted .byLabel laterFirst hreadable⟩

end Ranking

end Thesaurus
