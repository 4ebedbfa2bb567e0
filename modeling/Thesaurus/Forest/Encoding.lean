import Thesaurus.Forest.Basic
import Thesaurus.Json.Basic

/-!
# Forests as JSON (design §6)

A node is one object that holds what is shown of the resource, the flags of the node and its
children. What is absent is left out, and a missing field is read as absent.

- `Tree.toJson`, `Forest.toJson`: trees and forests as JSON.
- `Tree.ofJson?`, `Forest.ofJson?`: trees and forests read from JSON.
-/

namespace Thesaurus

open Rdf (Literal)

/-! ## Parts of a node -/

/-- The name of a kind in JSON. -/
def Kind.jsonName : Kind → String
  | unknown => "Unknown"
  | k => k.name

/-- The kind with the given name in JSON. -/
def Kind.ofJsonName? (s : String) : Option Kind :=
  [unknown, concept, conceptScheme, collection, orderedCollection].find? (·.jsonName = s)

/-- The kind that a JSON text names. -/
def Kind.ofJson? (j : Json) : Option Kind :=
  j.asString?.bind Kind.ofJsonName?

/-- A text with its language, if it has one. -/
def languageStringToJson (l : Literal) : Json :=
  .object (("value", .string l.value) :: Json.optional "language" .string l.language)

/-- Reads a text with an optional language. -/
def languageStringOfJson? : Json → Option Literal
  | .object fields => do
    let value ← (Json.field? fields "value").bind Json.asString?
    let language ← Json.readOptional Json.asString? fields "language"
    some ⟨value, language⟩
  | _ => none

namespace View

/-- The fields that show a resource. -/
def toFields (v : View) : List (String × Json) :=
  [("iri", .string v.iri)]
    ++ Json.optional "url" .string v.url
    ++ [("type", .string v.kind.jsonName)]
    ++ Json.optional "pref_label" languageStringToJson v.prefLabel
    ++ Json.optional "alt_label" languageStringToJson v.altLabel
    ++ Json.optional "title" languageStringToJson v.title
    ++ Json.optional "rdfs_label" languageStringToJson v.rdfsLabel
    ++ Json.optional "notation" .string v.notationText
    ++ Json.optional "definition" languageStringToJson v.definition
    ++ Json.optional "description" languageStringToJson v.description

/-- Reads what is shown of a resource from the fields of an object. -/
def ofFields? (fields : List (String × Json)) : Option View := do
  let iri ← (Json.field? fields "iri").bind Json.asString?
  let url ← Json.readOptional Json.asString? fields "url"
  let kind ← (Json.field? fields "type").bind Kind.ofJson?
  let prefLabel ← Json.readOptional languageStringOfJson? fields "pref_label"
  let altLabel ← Json.readOptional languageStringOfJson? fields "alt_label"
  let title ← Json.readOptional languageStringOfJson? fields "title"
  let rdfsLabel ← Json.readOptional languageStringOfJson? fields "rdfs_label"
  let notationText ← Json.readOptional Json.asString? fields "notation"
  let definition ← Json.readOptional languageStringOfJson? fields "definition"
  let description ← Json.readOptional languageStringOfJson? fields "description"
  some
    { iri, url, kind, prefLabel, altLabel, title, rdfsLabel, notationText, definition,
      description }

/-- What is shown of a resource, as an object. -/
def toJson (v : View) : Json :=
  .object v.toFields

/-- Reads what is shown of a resource. -/
def ofJson? : Json → Option View
  | .object fields => ofFields? fields
  | _ => none

end View

namespace Entry

/-- The fields of a node without its children. -/
def toFields (e : Entry) : List (String × Json) :=
  e.view.toFields
    ++ [("reference", .bool e.reference), ("top_concept", .bool e.topConcept),
      ("sort_by_notation", .bool e.sortByNotation)]
    ++ Json.optional "position" .number e.position
    ++ Json.optional "notation_rank" .number e.notationRank

/-- Reads a node without its children from the fields of an object. -/
def ofFields? (fields : List (String × Json)) : Option Entry := do
  let view ← View.ofFields? fields
  let reference ← Json.readDefault false Json.asBool? fields "reference"
  let topConcept ← Json.readDefault false Json.asBool? fields "top_concept"
  let sortByNotation ← Json.readDefault false Json.asBool? fields "sort_by_notation"
  let position ← Json.readOptional Json.asNat? fields "position"
  let notationRank ← Json.readOptional Json.asNat? fields "notation_rank"
  some { view, reference, topConcept, sortByNotation, position, notationRank }

end Entry

/-! ## Trees -/

namespace Tree

/-- The field for the children of a node, which is left out if there are none. -/
def childrenField (children : List Json) : List (String × Json) :=
  if children.isEmpty then [] else [("children", .array children)]

mutual

/-- A tree as an object. -/
def toJson : Tree Entry → Json
  | node e children => .object (e.toFields ++ childrenField (listToJson children))

/-- Each of several trees as an object. -/
def listToJson : List (Tree Entry) → List Json
  | [] => []
  | t :: ts => t.toJson :: listToJson ts

end

mutual

/-- Reads a tree. -/
def ofJson? : Json → Option (Tree Entry)
  | .object fields =>
    match childrenOfFields? fields, Entry.ofFields? fields with
    | some children, some e => some (node e children)
    | _, _ => none
  | _ => none

/-- Reads the children of a node from its fields; a missing field stands for no children. -/
def childrenOfFields? : List (String × Json) → Option (List (Tree Entry))
  | [] => some []
  | (name, .array items) :: rest =>
    if name = "children" then listOfJson? items else childrenOfFields? rest
  | (name, _) :: rest => if name = "children" then none else childrenOfFields? rest

/-- Reads several trees. -/
def listOfJson? : List Json → Option (List (Tree Entry))
  | [] => some []
  | j :: rest =>
    match ofJson? j, listOfJson? rest with
    | some t, some ts => some (t :: ts)
    | _, _ => none

end

end Tree

namespace Forest

/-- A forest as an object with its roots. -/
def toJson (f : Forest) : Json :=
  .object [("roots", .array (Tree.listToJson f))]

/-- Reads a forest. -/
def ofJson? : Json → Option Forest
  | .object fields =>
    match Json.field? fields "roots" with
    | some (.array items) => Tree.listOfJson? items
    | _ => none
  | _ => none

end Forest

end Thesaurus
