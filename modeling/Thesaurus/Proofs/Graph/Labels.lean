import Mathlib.Data.List.Induction
import Thesaurus.Proofs.Graph.Counterparts
import Thesaurus.Proofs.Graph.Members

/-!
# Which of several labels is shown

A resource has room for one label of each sort. Labels are offered to it one after another, and none
but the latest winner is remembered. Still it is the whole list of labels that decides.

- `preferred`: which of several labels is to be shown.
- `foldl_offer`: the label that is left when labels were offered one after another is that one.
- `TextProperty.iris`, `literalsFor`: the literals that statements give a resource.
- `read_textsOf`: each text of a resource comes from the literals given for it.
- `textsOf_chosen`: the texts of a resource are chosen by the rules.
- `texts_chosen`: so are the texts of all resources of a graph, finished or not.
-/

namespace Thesaurus

open Rdf (Literal Node Object Predicate TextProperty Triple)

/-! ## Offered labels -/

/-- The label to be shown of several: the last one without a tag, else the last one in the primary
language, else the last one. -/
def preferred (primary : String) (labels : List Literal) : Option Literal :=
  ((labels.filter (·.language.isNone)).getLast?.or
    (labels.filter (isPrimary primary)).getLast?).or labels.getLast?

section Offer

variable {primary : String} {labels : List Literal} {l current : Literal} {q : Literal → Bool}

theorem getLast?_filter_concat : ((labels ++ [l]).filter q).getLast? =
    if q l = true then some l else (labels.filter q).getLast? := by
  rw [List.filter_append]
  split
  · next hholds => rw [List.filter_cons_of_pos hholds, List.filter_nil, List.getLast?_concat]
  · next hfails => rw [List.filter_cons_of_neg hfails, List.filter_nil, List.append_nil]

theorem of_getLast?_filter (h : (labels.filter q).getLast? = some current) : q current = true :=
  (List.mem_filter.1 (List.mem_of_getLast? h)).2

theorem not_of_getLast?_filter (h : (labels.filter q).getLast? = none) (hl : l ∈ labels) :
    ¬ q l = true :=
  List.filter_eq_nil_iff.1 (List.getLast?_eq_none_iff.1 h) l hl

theorem offer_some : offer primary (some current) l =
    if yields primary current l = true then some l else some current :=
  rfl

/-- An untagged label gives way to untagged ones. -/
theorem yields_of_untagged (h : current.language.isNone = true) :
    yields primary current l = l.language.isNone :=
  if_pos h

/-- A label in the primary language gives way to untagged ones and to others in that language. -/
theorem yields_of_isPrimary (h : isPrimary primary current = true) :
    yields primary current l = (l.language.isNone || isPrimary primary l) := by
  have htagged : ¬ current.language.isNone = true := by
    intro huntagged
    rw [isPrimary, Option.isNone_iff_eq_none.1 huntagged] at h
    cases h
  rw [yields, if_neg htagged, if_pos h]
  split
  · next huntagged => rw [huntagged, Bool.true_or]
  · next hother => rw [Bool.eq_false_iff.2 hother, Bool.false_or]

/-- Any other label gives way to all labels. -/
theorem yields_of_foreign (htagged : ¬ current.language.isNone = true)
    (hforeign : ¬ isPrimary primary current = true) : yields primary current l = true := by
  rw [yields, if_neg htagged, if_neg hforeign]
  split <;> rfl

/-- Offering one more label to the slot of the preferred one prefers it among all of them. -/
theorem offer_preferred (primary : String) (labels : List Literal) (l : Literal) :
    offer primary (preferred primary labels) l = preferred primary (labels ++ [l]) := by
  have hafter : preferred primary (labels ++ [l]) =
      ((if l.language.isNone = true then some l
          else (labels.filter (·.language.isNone)).getLast?).or
        (if isPrimary primary l = true then some l
          else (labels.filter (isPrimary primary)).getLast?)).or (some l) := by
    rw [preferred, getLast?_filter_concat, getLast?_filter_concat, List.getLast?_concat]
  rw [hafter]
  -- by what the slot holds: an untagged label, one in the primary language, or any other
  cases huntagged : (labels.filter (·.language.isNone)).getLast? with
  | some u =>
    have hslot : preferred primary labels = some u := by rw [preferred, huntagged]; rfl
    rw [hslot, offer_some, yields_of_untagged (of_getLast?_filter huntagged)]
    split <;> rfl
  | none =>
    cases hinPrimary : (labels.filter (isPrimary primary)).getLast? with
    | some p =>
      have hslot : preferred primary labels = some p := by
        rw [preferred, huntagged, hinPrimary]
        rfl
      rw [hslot, offer_some, yields_of_isPrimary (of_getLast?_filter hinPrimary)]
      cases l.language.isNone <;> cases isPrimary primary l <;> rfl
    | none =>
      have hslot : preferred primary labels = labels.getLast? := by
        rw [preferred, huntagged, hinPrimary]; rfl
      have htaken : offer primary labels.getLast? l = some l := by
        cases hlast : labels.getLast? with
        | none => rfl
        | some c =>
          have hmem : c ∈ labels := List.mem_of_getLast? hlast
          rw [offer_some, yields_of_foreign (not_of_getLast?_filter huntagged hmem)
            (not_of_getLast?_filter hinPrimary hmem), if_pos rfl]
      rw [hslot, htaken]
      cases l.language.isNone <;> cases isPrimary primary l <;> rfl

end Offer

/-- The label that is left when labels were offered one after another is the preferred one. -/
theorem foldl_offer (primary : String) (labels : List Literal) :
    labels.foldl (offer primary) none = preferred primary labels := by
  induction labels using List.reverseRecOn with
  | nil => rfl
  | append_singleton labels l ih =>
    rw [List.foldl_append, ih, ← offer_preferred]
    rfl

example : ["en", "de", "EN", ""].foldl (fun slot tag => offer "en" slot ⟨tag, some tag⟩) none =
    some ⟨"EN", some "EN"⟩ := by
  decide

/-- What is left when every literal replaced the one before comes from the last. -/
theorem foldl_last {α : Type} (v : Literal → α) (literals : List Literal) :
    literals.foldl (fun _ l => some (v l)) none = literals.getLast?.map v := by
  induction literals using List.reverseRecOn with
  | nil => rfl
  | append_singleton literals l _ =>
    rw [List.foldl_append, List.getLast?_concat]
    rfl

/-! ## The literals of a resource -/

/-- The predicates that give a resource such a text. Titles and descriptions each have two. -/
def Rdf.TextProperty.iris : TextProperty → List String
  | .prefLabel => ["http://www.w3.org/2004/02/skos/core#prefLabel"]
  | .altLabel => ["http://www.w3.org/2004/02/skos/core#altLabel"]
  | .notationText => ["http://www.w3.org/2004/02/skos/core#notation"]
  | .definition => ["http://www.w3.org/2004/02/skos/core#definition"]
  | .title => ["http://purl.org/dc/terms/title", "http://purl.org/dc/elements/1.1/title"]
  | .description =>
    ["http://purl.org/dc/terms/description", "http://purl.org/dc/elements/1.1/description"]
  | .label => ["http://www.w3.org/2000/01/rdf-schema#label"]

/-- No other predicates do. -/
theorem ofIri?_eq_text {iri : String} {p : TextProperty} :
    Predicate.ofIri? iri = some (.text p) ↔ iri ∈ p.iris := by
  constructor
  · intro hfound
    have hlisted : (iri, Predicate.text p) ∈ Predicate.vocabulary := mem_of_lookup hfound
    cases p <;> simpa [Predicate.vocabulary, TextProperty.iris] using hlisted
  · have hall : ∀ iri ∈ p.iris, Predicate.ofIri? iri = some (.text p) := by
      cases p <;> decide
    exact hall iri

/-- The literal that an object is, if it is one. -/
def Rdf.Object.literal? : Object → Option Literal
  | .node _ => none
  | .literal l => some l

/-- The literal that a statement gives to a node with one of some predicates, if it does. -/
def literalGiven (n : Node) (iris : List String) (t : Triple) : Option Literal :=
  if t.subject = n ∧ t.predicate ∈ iris then t.object.literal? else none

/-- The literals that statements give to a node with one of some predicates, in order. -/
def literalsFor (triples : List Triple) (n : Node) (iris : List String) : List Literal :=
  triples.filterMap (literalGiven n iris)

section Reading

variable {α : Type} {read : Texts → α} {p : TextProperty} {f : α → Literal → α}
  {c : Configuration} {n : Node} {triples : List Triple}

/-- A text of a node changes with the literals that are given to the node for this text. -/
theorem read_textsAfter (hown : ∀ l t, read (Texts.record c.primaryLanguage p l t) = f (read t) l)
    (hothers : ∀ q l t, q ≠ p → read (Texts.record c.primaryLanguage q l t) = read t)
    (texts : Texts) (t : Triple) : read (textsAfter c n texts t) =
      (literalGiven n p.iris t).elim (read texts) (f (read texts)) := by
  unfold textsAfter literalGiven
  simp only [← ofIri?_eq_text]
  cases t.object with
  | node object =>
    cases Predicate.ofIri? t.predicate with
    | none => simp
    | some q => cases q <;> simp [Object.literal?]
  | literal l =>
    cases Predicate.ofIri? t.predicate with
    | none => simp
    | some q =>
      cases q with
      | relation r => simp
      | text q =>
        by_cases hsubject : t.subject = n
        · by_cases hsame : q = p
          · simp [hsubject, hsame, hown, Object.literal?]
          · simp [hsubject, hsame, hothers q l texts hsame]
        · simp [hsubject]

/-- So it comes from the list of all these literals. -/
theorem read_textsOf (hown : ∀ l t, read (Texts.record c.primaryLanguage p l t) = f (read t) l)
    (hothers : ∀ q l t, q ≠ p → read (Texts.record c.primaryLanguage q l t) = read t) :
    read (textsOf c triples n) = (literalsFor triples n p.iris).foldl f (read {}) := by
  have hall : ∀ texts, read (triples.foldl (textsAfter c n) texts) =
      (literalsFor triples n p.iris).foldl f (read texts) := by
    induction triples with
    | nil => exact fun _ => rfl
    | cons t rest ih =>
      intro texts
      rw [List.foldl_cons, ih, read_textsAfter hown hothers]
      unfold literalsFor
      rw [List.filterMap_cons]
      cases literalGiven n p.iris t <;> rfl
  exact hall {}

/-- A text that follows the rule of `offer` is the preferred one. -/
theorem label_textsOf {read : Texts → Option Literal} (hnothing : read {} = none)
    (hown : ∀ l t, read (Texts.record c.primaryLanguage p l t) =
      offer c.primaryLanguage (read t) l)
    (hothers : ∀ q l t, q ≠ p → read (Texts.record c.primaryLanguage q l t) = read t) :
    read (textsOf c triples n) = preferred c.primaryLanguage (literalsFor triples n p.iris) := by
  rw [read_textsOf hown hothers, hnothing, foldl_offer]

/-- A text that gives way to every literal comes from the last one. -/
theorem last_textsOf {read : Texts → Option α} {v : Literal → α} (hnothing : read {} = none)
    (hown : ∀ l t, read (Texts.record c.primaryLanguage p l t) = some (v l))
    (hothers : ∀ q l t, q ≠ p → read (Texts.record c.primaryLanguage q l t) = read t) :
    read (textsOf c triples n) = (literalsFor triples n p.iris).getLast?.map v := by
  rw [read_textsOf (f := fun _ l => some (v l)) hown hothers, hnothing, foldl_last]

end Reading

/-- Whether texts are chosen by the rules among the literals that statements give to a node: labels,
title and description by language, and notation and definition as the last one given. -/
structure Texts.Chosen (primary : String) (triples : List Triple) (n : Node) (t : Texts) :
    Prop where
  prefLabel : t.prefLabel = preferred primary (literalsFor triples n TextProperty.prefLabel.iris)
  altLabel : t.altLabel = preferred primary (literalsFor triples n TextProperty.altLabel.iris)
  title : t.title = preferred primary (literalsFor triples n TextProperty.title.iris)
  rdfsLabel : t.rdfsLabel = preferred primary (literalsFor triples n TextProperty.label.iris)
  description :
    t.description = preferred primary (literalsFor triples n TextProperty.description.iris)
  notationText : t.notationText =
    (literalsFor triples n TextProperty.notationText.iris).getLast?.map (·.value)
  definition : t.definition = (literalsFor triples n TextProperty.definition.iris).getLast?

/-- The texts that statements give to a node are chosen by the rules. -/
theorem textsOf_chosen (c : Configuration) (triples : List Triple) (n : Node) :
    (textsOf c triples n).Chosen c.primaryLanguage triples n := by
  have hlast : (textsOf c triples n).definition =
      (literalsFor triples n TextProperty.definition.iris).getLast?.map fun l => l := by
    refine last_textsOf rfl (fun _ _ => rfl) fun q _ _ hother => ?_
    cases q <;> first | rfl | exact absurd rfl hother
  refine ⟨label_textsOf rfl (fun _ _ => rfl) ?_, label_textsOf rfl (fun _ _ => rfl) ?_,
    label_textsOf rfl (fun _ _ => rfl) ?_, label_textsOf rfl (fun _ _ => rfl) ?_,
    label_textsOf rfl (fun _ _ => rfl) ?_, last_textsOf rfl (fun _ _ => rfl) ?_,
    hlast.trans Option.map_id'⟩
  -- what is recorded of one kind of text leaves the other texts as they are
  all_goals
    intro q _ _ hother
    cases q <;> first | rfl | exact absurd rfl hother

/-! ## The texts of a graph -/

/-- In the graph of some statements, before it is finished or after, the texts of every resource are
chosen by the rules among the literals that the statements give to it. -/
theorem texts_chosen (c : Configuration) (triples : List Triple) :
    ∃ g f, (ResourceGraph.new c).ingestAll triples = .ok g ∧ g.finish = .ok f ∧
      (∀ r ∈ g.resources, r.texts.Chosen c.primaryLanguage triples r.node) ∧
      ∀ r ∈ f.resources, r.texts.Chosen c.primaryLanguage triples r.node := by
  obtain ⟨g, htaken, hsound, _, hopen, _⟩ :=
    ResourceGraph.exists_ingestAll triples (Sound.new c) rfl
  have hshown : ∀ n, (g.shownAt n).2.Chosen c.primaryLanguage triples n := fun n => by
    rw [ResourceGraph.shownAt_ingestAll htaken]
    exact textsOf_chosen c triples n
  refine ⟨g, g.completed, htaken, ResourceGraph.finish_eq hopen, fun r hr => ?_, fun r hr => ?_⟩
  · obtain ⟨i, hi⟩ := ResourceGraph.mem_resources_iff.1 (Array.mem_toList_iff.2 hr)
    have hhere := ResourceGraph.shownAt_eq (ResourceGraph.lookup_node hsound.indexed hi) hi
    have hchosen := hshown r.node
    rwa [hhere] at hchosen
  · obtain ⟨i, hi⟩ := ResourceGraph.mem_resources_iff.1 (Array.mem_toList_iff.2 hr)
    have hfound := ResourceGraph.lookup_node (ResourceGraph.sound_completed hsound).indexed hi
    have hhere := ResourceGraph.shownAt_eq hfound hi
    have hchosen := hshown r.node
    rwa [← ResourceGraph.shownAt_completed hsound hfound, hhere] at hchosen

end Thesaurus
