import Thesaurus.Configuration.Basic
import Thesaurus.Toml.Document
import Thesaurus.Toml.Settings

/-!
# Configurations as TOML (design §E)

- `Configuration.settings`: what a configuration comes to in a document.
- `Configuration.toToml`: the written form of a configuration.
- `Configuration.ofTable?`: the configuration that a table describes.
- `Configuration.ofToml`: the configuration that a document describes.

What takes tables to documents and back is a layer of its own. What is made of it is defined over
any such layer, with names that end in `By`.
-/

namespace Thesaurus

/-! ## Writing -/

/-- The table for a request to sort by notation. -/
def Notation.Sorting.settings (s : Notation.Sorting) : List (String × Toml.Setting) :=
  [("format", .text s.format.name), ("default_axis", .text s.axis.name)]

/-- The settings of a configuration, and a table at the end if siblings are to be sorted by
notation. -/
def Configuration.settings (c : Configuration) : Toml.Settings where
  outer :=
    [("primary_language", .text c.primaryLanguage), ("concept_schemes", .switch c.conceptSchemes),
      ("collections", .switch c.collections), ("resolve_urls", .switch c.resolveUrls)]
  tables := c.notationSort.elim [] fun s => [("notation", s.settings)]

/-- The written form of a configuration (`to_toml_string`). -/
def Configuration.toToml (c : Configuration) : String :=
  c.settings.write

/-! ## Reading -/

namespace Toml

/-- A text. -/
def Value.asString? : Value → Option String
  | .string text => some text
  | _ => none

/-- A truth value. -/
def Value.asBool? : Value → Option Bool
  | .boolean b => some b
  | _ => none

/-- Whether a value is a container without contents. -/
def Value.isHollow : Value → Bool
  | .array items => items.isEmpty
  | .table entries => entries.isEmpty
  | _ => false

/-- One of several named choices: its name, or a table in which its name has no contents. -/
def Value.asChoice? {α : Type} (ofName? : String → Option α) : Value → Option α
  | .string name => ofName? name
  | .table [(name, contents)] => if contents.isHollow then ofName? name else none
  | _ => none

/-- What a value stands for, or a default if it is missing. The outer option tells whether it could
be read. -/
def readOr {α : Type} (default : α) (read : Value → Option α) : Option Value → Option α
  | none => some default
  | some v => read v

end Toml

open Toml (Value readOr)

/-- The request made of an optional format and an optional axis. -/
def Notation.Sorting.ofParts? (format axis : Option Value) : Option Notation.Sorting :=
  match readOr .alpha (Value.asChoice? Notation.Format.ofName?) format,
    readOr .byLabel (Value.asChoice? Notation.Axis.ofName?) axis with
  | some format, some axis => some ⟨format, axis⟩
  | _, _ => none

/-- The request that a value describes: a table, whose unknown entries are passed over, or a list
of the format and the axis. A date counts as a table without known entries. -/
def Notation.Sorting.ofToml? : Value → Option Notation.Sorting
  | .table entries => ofParts? (entries.lookup "format") (entries.lookup "default_axis")
  | .array items => ofParts? items[0]? items[1]?
  | .moment _ => ofParts? none none
  | _ => none

/-- The configuration that a table describes. Unknown entries are passed over. -/
def Configuration.ofTable? (entries : List (String × Value)) : Option Configuration :=
  match readOr "en" Value.asString? (entries.lookup "primary_language"),
    readOr false Value.asBool? (entries.lookup "concept_schemes"),
    readOr false Value.asBool? (entries.lookup "collections"),
    readOr false Value.asBool? (entries.lookup "resolve_urls"),
    readOr none (fun v => (Notation.Sorting.ofToml? v).map some) (entries.lookup "notation") with
  | some primaryLanguage, some conceptSchemes, some collections, some resolveUrls,
    some notationSort =>
    some { primaryLanguage, conceptSchemes, collections, resolveUrls, notationSort }
  | _, _, _, _, _ => none

/-- The configuration that a document describes, where documents are read as tables. It must be one
that can drive a transform. -/
def Configuration.ofTomlBy (readTable? : String → Option (List (String × Value))) (text : String) :
    Except ConfigurationError Configuration :=
  match (readTable? text).bind ofTable? with
  | none => .error .parse
  | some c =>
    match c.validate with
    | .error e => .error e
    | .ok () => .ok c

/-- The configuration that a document describes (`from_toml_str`). -/
def Configuration.ofToml : String → Except ConfigurationError Configuration :=
  ofTomlBy Toml.readTable?

end Thesaurus
