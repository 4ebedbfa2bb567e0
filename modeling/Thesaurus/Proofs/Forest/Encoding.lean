import Thesaurus.Forest.Encoding
import Thesaurus.Proofs.Json.Fields

/-!
# Forests from JSON and back

A forest that was written is read again, in whatever order the fields of its objects come, although
what is absent is left out and a node and its view share one object.

- `View.ofFields?_of_alike`, `Entry.ofFields?_of_alike`: a node is read from fields like its own.
- `Tree.reads`: a tree is read again, by induction over it.
- `forest_read_again`: so is every forest.
-/

namespace Thesaurus

open Json (Rearranged RearrangedAll Reads field?)

/-! ## Parts of a node -/

theorem Kind.reads : Reads (fun k : Kind => .string k.jsonName) Kind.ofJson? := by
  rintro k _ ⟨⟩
  cases k <;> decide +kernel

theorem languageString_reads : Reads languageStringToJson languageStringOfJson? := by
  intro l j hrearranged
  obtain ⟨inner, fields', rfl, heach, horder⟩ := Json.exists_of_rearranged_object hrearranged
  have halike := Json.field?_rearranged heach horder (by
    refine List.Nodup.sublist (List.Sublist.cons_cons "value" (Json.names_optional _)) ?_
    decide)
  have hvalue : (field? fields' "value").bind Json.asString? = some l.value :=
    Json.reads_string.required (halike _) (by simp [Json.field?_cons])
  have hlanguage : Json.readOptional Json.asString? fields' "language" = some l.language :=
    Json.reads_string.optional rfl (halike _) (by simp [Json.field?_cons])
  simp [languageStringOfJson?, hvalue, hlanguage]

/-- A language string says something, and so does all that is written of it. -/
theorem languageString_omitsAbsent (l : Rdf.Literal) :
    (languageStringToJson l).isPresent = true ∧
      (languageStringToJson l).omitsAbsent = true := by
  refine ⟨rfl, ?_⟩
  simp only [languageStringToJson, Json.omitsAbsent, Json.fieldsOmitAbsent, Json.isPresent,
    Bool.true_and]
  exact Json.fieldsOmitAbsent_optional fun _ => ⟨rfl, rfl⟩

namespace View

/-- The names under which a view is written. -/
def fieldNames : List String :=
  ["iri", "url", "type", "pref_label", "alt_label", "title", "rdfs_label", "notation",
    "definition", "description"]

theorem names_toFields (v : View) : (v.toFields.map Prod.fst).Sublist fieldNames := by
  simp only [toFields, List.map_append]
  exact (((((((((List.Sublist.refl ["iri"]).append (Json.names_optional _)).append
    (.refl ["type"])).append (Json.names_optional _)).append (Json.names_optional _)).append
    (Json.names_optional _)).append (Json.names_optional _)).append (Json.names_optional _)).append
    (Json.names_optional _)).append (Json.names_optional _)

/-- A view is read from fields that are alike where it has fields of its own. -/
theorem ofFields?_of_alike {v : View} {fields' : List (String × Json)}
    (halike : ∀ name ∈ fieldNames,
      Option.Rel Rearranged (field? v.toFields name) (field? fields' name)) :
    ofFields? fields' = some v := by
  -- one field after the other: it is there if it is required, and alike if it is there
  have hiri := Json.reads_string.required (a := v.iri) (halike "iri" (by decide))
    (by simp [toFields, Json.field?_cons])
  have hurl := Json.reads_string.optional (o := v.url) rfl (halike "url" (by decide))
    (by simp [toFields, Json.field?_cons])
  have hkind := Kind.reads.required (a := v.kind) (halike "type" (by decide))
    (by simp [toFields, Json.field?_cons])
  have hprefLabel := languageString_reads.optional (o := v.prefLabel) rfl
    (halike "pref_label" (by decide)) (by simp [toFields, Json.field?_cons])
  have haltLabel := languageString_reads.optional (o := v.altLabel) rfl
    (halike "alt_label" (by decide)) (by simp [toFields, Json.field?_cons])
  have htitle := languageString_reads.optional (o := v.title) rfl
    (halike "title" (by decide)) (by simp [toFields, Json.field?_cons])
  have hrdfsLabel := languageString_reads.optional (o := v.rdfsLabel) rfl
    (halike "rdfs_label" (by decide)) (by simp [toFields, Json.field?_cons])
  have hnotationText := Json.reads_string.optional (o := v.notationText) rfl
    (halike "notation" (by decide)) (by simp [toFields, Json.field?_cons])
  have hdefinition := languageString_reads.optional (o := v.definition) rfl
    (halike "definition" (by decide)) (by simp [toFields, Json.field?_cons])
  have hdescription := languageString_reads.optional (o := v.description) rfl
    (halike "description" (by decide)) (by simp [toFields, Json.field?_cons])
  simp [ofFields?, hiri, hurl, hkind, hprefLabel, haltLabel, htitle, hrdfsLabel, hnotationText,
    hdefinition, hdescription]

/-- What is written of a view says something. -/
theorem omitsAbsent_toFields (v : View) : Json.fieldsOmitAbsent v.toFields = true := by
  have htext : ∀ s : String,
      (Json.string s).isPresent = true ∧ (Json.string s).omitsAbsent = true :=
    fun _ => ⟨rfl, rfl⟩
  simp only [toFields, Json.fieldsOmitAbsent_append, Bool.and_eq_true,
    Json.fieldsOmitAbsent_optional htext, Json.fieldsOmitAbsent_optional languageString_omitsAbsent,
    and_true]
  exact ⟨rfl, rfl⟩

end View

/-! ## Nodes -/

namespace Entry

/-- The names under which a node without its children is written. -/
def fieldNames : List String :=
  View.fieldNames ++ ["reference", "top_concept", "sort_by_notation", "position", "notation_rank"]

theorem names_toFields (e : Entry) : (e.toFields.map Prod.fst).Sublist fieldNames := by
  simp only [toFields, List.map_append]
  exact (((View.names_toFields e.view).append
    (.refl ["reference", "top_concept", "sort_by_notation"])).append
    (Json.names_optional _)).append (Json.names_optional _)

/-- The names of a view stand for the fields of the view. -/
theorem field?_toFields (e : Entry) {name : String} (h : name ∈ View.fieldNames) :
    field? e.toFields name = field? e.view.toFields name := by
  have hapart : ∀ name ∈ View.fieldNames, name ∉
      ["reference", "top_concept", "sort_by_notation", "position", "notation_rank"] := by decide
  have hother := hapart name h
  simp only [List.mem_cons, List.not_mem_nil, or_false, not_or] at hother
  obtain ⟨hreference, htopConcept, hsortByNotation, hposition, hnotationRank⟩ := hother
  simp only [toFields, Json.field?_append, Json.field?_cons, Json.field?_optional,
    if_neg hreference, if_neg htopConcept, if_neg hsortByNotation, if_neg hposition,
    if_neg hnotationRank, Option.or_none]
  exact Option.or_none

/-- A node without its children is read from fields that are alike where it has fields. -/
theorem ofFields?_of_alike {e : Entry} {fields' : List (String × Json)}
    (halike : ∀ name ∈ fieldNames,
      Option.Rel Rearranged (field? e.toFields name) (field? fields' name)) :
    ofFields? fields' = some e := by
  have hview : View.ofFields? fields' = some e.view := View.ofFields?_of_alike fun name hname =>
    e.field?_toFields hname ▸ halike name (List.mem_append_left _ hname)
  have hreference := Json.reads_bool.default false (a := e.reference)
    (halike "reference" (by decide)) (by simp [toFields, View.toFields, Json.field?_cons])
  have htopConcept := Json.reads_bool.default false (a := e.topConcept)
    (halike "top_concept" (by decide)) (by simp [toFields, View.toFields, Json.field?_cons])
  have hsortByNotation := Json.reads_bool.default false (a := e.sortByNotation)
    (halike "sort_by_notation" (by decide)) (by simp [toFields, View.toFields, Json.field?_cons])
  have hposition := Json.reads_number.optional (o := e.position) rfl
    (halike "position" (by decide)) (by simp [toFields, View.toFields, Json.field?_cons])
  have hnotationRank := Json.reads_number.optional (o := e.notationRank) rfl
    (halike "notation_rank" (by decide)) (by simp [toFields, View.toFields, Json.field?_cons])
  simp [ofFields?, hview, hreference, htopConcept, hsortByNotation, hposition, hnotationRank]

end Entry

/-! ## Trees -/

namespace Tree

/-- The children of a node are looked for by name. -/
theorem childrenOfFields?_eq (fields : List (String × Json)) : childrenOfFields? fields =
    match field? fields "children" with
    | none => some []
    | some (.array items) => listOfJson? items
    | some _ => none := by
  induction fields with
  | nil => rfl
  | cons field rest ih =>
    obtain ⟨name, value⟩ := field
    rw [Json.field?_cons]
    by_cases h : name = "children"
    · rw [if_pos h.symm]
      cases value <;> simp [childrenOfFields?, h]
    · rw [if_neg (Ne.symm h), ← ih]
      cases value <;> simp [childrenOfFields?, h]

theorem listToJson_isEmpty {ts : List (Tree Entry)} : (listToJson ts).isEmpty = ts.isEmpty := by
  cases ts <;> rfl

/-- Trees are read again if each of them is. -/
theorem listOfJson?_of_reads {ts : List (Tree Entry)} {items : List Json}
    (heach : ∀ t ∈ ts, ∀ j, t.toJson.Rearranged j → ofJson? j = some t)
    (hrearranged : RearrangedAll (listToJson ts) items) : listOfJson? items = some ts := by
  induction ts generalizing items with
  | nil =>
    cases hrearranged
    rfl
  | cons t ts ih =>
    cases hrearranged with
    | cons hfirst hothers =>
      rw [listOfJson?, heach t List.mem_cons_self _ hfirst,
        ih (fun t ht => heach t (List.mem_cons_of_mem _ ht)) hothers]

/-- The names of the fields of a node are different. -/
theorem nodup_names (e : Entry) (cs : List Json) :
    ((e.toFields ++ childrenField cs).map Prod.fst).Nodup := by
  have hchildren : ((childrenField cs).map Prod.fst).Sublist ["children"] := by
    unfold childrenField
    split
    · exact List.nil_sublist _
    · exact .refl _
  rw [List.map_append]
  exact List.Nodup.sublist (e.names_toFields.append hchildren) (by decide)

/-- The name for children stands for them, if there are any. -/
theorem field?_children (e : Entry) (cs : List (Tree Entry)) :
    field? (e.toFields ++ childrenField (listToJson cs)) "children" =
      if cs.isEmpty then none else some (.array (listToJson cs)) := by
  have hother : field? e.toFields "children" = none := by
    simp [Entry.toFields, View.toFields, Json.field?_cons]
  rw [Json.field?_append, hother, Option.none_or, childrenField, listToJson_isEmpty]
  split
  · rfl
  · exact Json.field?_cons _

/-- The children of a node are read again if each of them is, also where there are none. -/
theorem childrenOfFields?_of_reads {cs : List (Tree Entry)} {fields' : List (String × Json)}
    (heach : ∀ c ∈ cs, ∀ j, c.toJson.Rearranged j → ofJson? j = some c)
    (halike : Option.Rel Rearranged
      (if cs.isEmpty then none else some (.array (listToJson cs))) (field? fields' "children")) :
    childrenOfFields? fields' = some cs := by
  rw [childrenOfFields?_eq]
  cases cs with
  | nil => rw [Json.eq_none_of_alike halike]
  | cons c cs =>
    obtain ⟨j, hfound, hrearranged⟩ := Json.exists_of_alike halike
    obtain ⟨items, rfl, hall⟩ := Json.exists_of_rearranged_array hrearranged
    rw [hfound]
    exact listOfJson?_of_reads heach hall

/-- A tree is read again, in whatever order the fields come. -/
theorem reads : Reads toJson ofJson? := by
  intro t
  -- by induction on the tree: the field for children comes after those of the entry, if at all
  induction t using Tree.induct with
  | node e cs ih =>
    intro j hrearranged
    obtain ⟨inner, fields', rfl, heach, horder⟩ := Json.exists_of_rearranged_object hrearranged
    have halike := Json.field?_rearranged heach horder (nodup_names e _)
    have hentry : Entry.ofFields? fields' = some e := by
      refine Entry.ofFields?_of_alike fun name hname => ?_
      have hother : name ≠ "children" := by
        rintro rfl
        exact absurd hname (by decide)
      have hown : field? (e.toFields ++ childrenField (listToJson cs)) name =
          field? e.toFields name := by
        rw [Json.field?_append]
        unfold childrenField
        split
        · exact Option.or_none
        · rw [Json.field?_cons, if_neg hother]
          exact Option.or_none
      exact hown ▸ halike name
    have hchildren : childrenOfFields? fields' = some cs :=
      childrenOfFields?_of_reads ih (field?_children e cs ▸ halike "children")
    rw [ofJson?, hchildren, hentry]

/-- All that is written of a tree says something. -/
theorem omitsAbsent_toJson (t : Tree Entry) : t.toJson.omitsAbsent = true := by
  induction t using Tree.induct with
  | node e cs ih =>
    have hnumber : ∀ n : Nat, (Json.number n).isPresent = true ∧
        (Json.number n).omitsAbsent = true := fun _ => ⟨rfl, rfl⟩
    have hentry : Json.fieldsOmitAbsent e.toFields = true := by
      simp only [Entry.toFields, Json.fieldsOmitAbsent_append, Bool.and_eq_true,
        View.omitsAbsent_toFields, Json.fieldsOmitAbsent_optional hnumber, and_true, true_and]
      rfl
    have hbelow : Json.allOmitAbsent (listToJson cs) = true := by
      clear hentry
      induction cs with
      | nil => rfl
      | cons c cs ih' =>
        rw [listToJson, Json.allOmitAbsent, ih c List.mem_cons_self,
          ih' fun t ht => ih t (List.mem_cons_of_mem _ ht)]
        rfl
    rw [toJson, Json.omitsAbsent, Json.fieldsOmitAbsent_append, hentry, Bool.true_and,
      childrenField]
    split
    · rfl
    · next hsome =>
      simp [Json.fieldsOmitAbsent, Json.isPresent, Json.omitsAbsent, hbelow, hsome]

end Tree

/-! ## Forests -/

/-- A forest that was written as JSON is read again, and so it is from the same values with the
fields of their objects in any other order. In each of its trees, nothing absent is written: no
field is null or an empty list. -/
theorem forest_read_again (f : Forest) :
    Forest.ofJson? f.toJson = some f ∧
    (∀ j, f.toJson.Rearranged j → Forest.ofJson? j = some f) ∧
    ∀ t ∈ f, t.toJson.omitsAbsent = true := by
  have hreads : ∀ j, f.toJson.Rearranged j → Forest.ofJson? j = some f := by
    intro j hrearranged
    obtain ⟨inner, fields', rfl, heach, horder⟩ := Json.exists_of_rearranged_object hrearranged
    have halike := Json.field?_rearranged heach horder (List.nodup_singleton _) "roots"
    rw [Json.field?_cons, if_pos rfl] at halike
    obtain ⟨j, hfound, hrearranged⟩ := Json.exists_of_alike halike
    obtain ⟨items, rfl, hall⟩ := Json.exists_of_rearranged_array hrearranged
    rw [Forest.ofJson?, hfound]
    exact Tree.listOfJson?_of_reads (fun t _ => Tree.reads t) hall
  exact ⟨hreads _ (.same _), hreads, fun t _ => t.omitsAbsent_toJson⟩

/-- A scheme with a concept that is only referred to there. -/
def writtenForest : Forest := [
  .node { view := { iri := "urn:s", kind := .conceptScheme } } [
    .leaf
      { view :=
          { iri := "urn:a"
            kind := .concept
            prefLabel := some ⟨"\"A\"", some "en"⟩ }
        reference := true
        position := some 0 }]]

/-- The same as JSON, where the fields of each object come in reverse. -/
def writtenForestReversed : Json :=
  .object [("roots", .array [
    .object [
      ("children", .array [
        .object [
          ("position", .number 0),
          ("sort_by_notation", .bool false),
          ("top_concept", .bool false),
          ("reference", .bool true),
          ("pref_label", .object [("language", .string "en"), ("value", .string "\"A\"")]),
          ("type", .string "Concept"),
          ("iri", .string "urn:a")]]),
      ("sort_by_notation", .bool false),
      ("top_concept", .bool false),
      ("reference", .bool false),
      ("type", .string "ConceptScheme"),
      ("iri", .string "urn:s")]])]

theorem forest_read_again_reversed :
    writtenForest.toJson.Rearranged writtenForestReversed ∧
      Forest.ofJson? writtenForestReversed = some writtenForest := by
  have hlabel : (languageStringToJson ⟨"\"A\"", some "en"⟩).Rearranged
      (.object [("language", .string "en"), ("value", .string "\"A\"")]) :=
    .object (.refl _) (List.reverse_perm _).symm
  have hrearranged : writtenForest.toJson.Rearranged writtenForestReversed := by
    refine .object (.cons _ (.array (.cons (.object (.cons _ (.same _) (.cons _ (.same _)
      (.cons _ (.same _) (.cons _ (.same _) (.cons _ (.same _)
        (.cons _ (.array (.cons ?child .nil)) .nil)))))) (List.reverse_perm _).symm) .nil)) .nil)
      (.refl _)
    exact .object (.cons _ (.same _) (.cons _ (.same _) (.cons _ hlabel (.refl _))))
      (List.reverse_perm _).symm
  exact ⟨hrearranged, (forest_read_again writtenForest).2.1 _ hrearranged⟩

end Thesaurus
