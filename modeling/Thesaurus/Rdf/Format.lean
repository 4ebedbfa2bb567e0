import Thesaurus.FileTree
import Thesaurus.Rdf.Turtle

/-!
# RDF formats (design §F.7)

- `Rdf.Format`: the formats of RDF documents, with their names.
- `Format.ofPath?`: the format that the name of a file tells.
- `Format.read`: the statements of a document.
- `Rdf.load`: the statements of a file.
- `InputError`: why there are none.
-/

namespace Thesaurus

namespace Rdf

/-- Why a document could not be read: the name of the file does not tell its format, there is no
such file, or the text does not follow the rules of its format. -/
inductive InputError where
  | unknownFormat (path : String)
  | unreadable (path : String)
  | malformed
deriving DecidableEq, Repr

namespace InputError

/-- The short identifier of the kind of error. -/
def code : InputError → String
  | unknownFormat _ => "skos::input::unknown_format"
  | unreadable _ => "skos::input::io"
  | malformed => "skos::input::syntax"

/-- What is wrong, in one line. -/
def message : InputError → String
  | unknownFormat path => "cannot determine RDF format of " ++ path
  | unreadable path => "failed to read RDF input: " ++ path
  | malformed => "malformed RDF input"

end InputError

/-- The formats of RDF documents. -/
inductive Format where
  | turtle
  | nTriples
  | nQuads
  | triG
  | n3
  | rdfXml
  | jsonLd
deriving DecidableEq, Inhabited, Repr

namespace Format

/-- The name of a format. -/
def name : Format → String
  | turtle => "Turtle"
  | nTriples => "N-Triples"
  | nQuads => "N-Quads"
  | triG => "TriG"
  | n3 => "N3"
  | rdfXml => "RDF/XML"
  | jsonLd => "JSON-LD"

/-- The formats that can be asked for, by the words that ask for them. -/
def keywords : List (String × Format) :=
  [("turtle", turtle), ("ntriples", nTriples), ("nquads", nQuads), ("trig", triG), ("n3", n3),
    ("rdfxml", rdfXml)]

/-- The formats that the names of files tell, by their extensions. -/
def extensions : List (String × Format) :=
  [("ttl", turtle), ("nt", nTriples), ("txt", nTriples), ("nq", nQuads), ("trig", triG),
    ("n3", n3), ("rdf", rdfXml), ("owl", rdfXml), ("xml", rdfXml), ("json", jsonLd),
    ("jsonld", jsonLd)]

/-- The format that the name of a file tells by its extension, in whatever case. -/
def ofPath? (path : String) : Option Format :=
  (FilePath.extension? path).bind fun e => extensions.lookup (String.ofList (lowerTag e.toList))

/-- The format that the name of a file tells, or the reason why it tells none
(`format_for_path`). -/
def ofPath (path : String) : Except InputError Format :=
  match ofPath? path with
  | some f => .ok f
  | none => .error (.unknownFormat path)

/-- The statements of a text. TriG and N3 are read as far as they are Turtle, the formats of XML and
JSON not at all. -/
def read? (f : Format) (text : String) : Option (List Triple) :=
  match f with
  | nTriples => readNTriples? false text.toList
  | nQuads => readNTriples? true text.toList
  | turtle | triG | n3 => readTurtle? text.toList
  | rdfXml | jsonLd => none

/-- The statements of a text, or an error (`read_triples`). -/
def read (f : Format) (text : String) : Except InputError (List Triple) :=
  match f.read? text with
  | some triples => .ok triples
  | none => .error .malformed

end Format

/-- The format to read a file in: the one asked for, or else the one that its name tells. -/
def formatFor (path : String) : Option Format → Except InputError Format
  | some f => .ok f
  | none => Format.ofPath path

/-- The statements in what a path leads to. A directory can be opened, but has no text. -/
def readEntry (path : String) (f : Format) : Option FileEntry → Except InputError (List Triple)
  | some (.file text) => f.read text
  | some .directory => .error .malformed
  | none => .error (.unreadable path)

/-- The statements of the file that a path leads to, in the format asked for or told by its name
(`load_file`). -/
def load (files : FileTree) (path : String) (asked : Option Format) :
    Except InputError (List Triple) :=
  match formatFor path asked with
  | .error e => .error e
  | .ok f => readEntry path f (files.look? path)

end Rdf

end Thesaurus
