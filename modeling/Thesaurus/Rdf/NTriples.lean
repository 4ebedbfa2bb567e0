import Thesaurus.Rdf.Term
import Thesaurus.Rdf.Token

/-!
# N-Triples and N-Quads (design §F.7)

Documents with one statement on a line, in which every IRI is written in full.

- `readStatement?`: the statement on a line.
- `readNTriples?`: all statements of a document.
-/

namespace Thesaurus

namespace Rdf

/-- The IRI that a token writes in full. -/
def Token.fullIri? : Token → Option String
  | .iri written => if isIri written then some (String.ofList written) else none
  | _ => none

/-- The node that a token writes in full. -/
def Token.fullNode? : Token → Option Node
  | .blank label => some (.blank (String.ofList label))
  | token => token.fullIri?.map .iri

/-- The literal of a text and of the tokens after it: a language tag, or a type, which must be an
IRI other than the type of texts with a tag, and is not kept. -/
def literalOf (iri? : Token → Option String) (text : List Char) (tokens : List Token) :
    Option (Literal × List Token) :=
  match tokens with
  | .tag word :: rest =>
    if isLanguageTag word then
      some (⟨String.ofList text, some (String.ofList (lowerTag word))⟩, rest)
    else none
  | .typeMark :: token :: rest =>
    match iri? token with
    | some iri => if iri == langStringIri then none else some (⟨String.ofList text, none⟩, rest)
    | none => none
  | tokens => some (⟨String.ofList text, none⟩, tokens)

/-- The object at the front of the tokens of a line. -/
def readObject? : List Token → Option (Object × List Token)
  | .string text true :: rest =>
    (literalOf Token.fullIri? text rest).map fun (l, rest) => (.literal l, rest)
  | token :: rest => token.fullNode?.map fun node => (.node node, rest)
  | [] => none

/-- Whether the tokens after an object end a statement. The name of a graph may come first, and is
not kept. -/
def endsStatement (graphs : Bool) : List Token → Bool
  | [.mark '.'] => true
  | [graph, .mark '.'] => graphs && graph.fullNode?.isSome
  | _ => false

/-- The statement on a line. -/
def readStatement? (graphs : Bool) : List Token → Option Triple
  | subject :: predicate :: rest =>
    match subject.fullNode?, predicate.fullIri?, readObject? rest with
    | some subject, some predicate, some (object, rest) =>
      if endsStatement graphs rest then some ⟨subject, predicate, object⟩ else none
    | _, _, _ => none
  | _ => none

/-- The statement on a line, if there is one. The outer option tells whether it could be read. -/
def readStatementLine? (graphs : Bool) (line : List Char) : Option (Option Triple) :=
  match tokens? line with
  | none => none
  | some [] => some none
  | some tokens => (readStatement? graphs tokens).map some

/-- The lines of a text. -/
def lines (s : List Char) : List (List Char) :=
  Text.segments '\n' (s.map fun c => if c == '\r' then '\n' else c)

/-- The statements of a document, where the names of graphs may be allowed. -/
def readNTriples? (graphs : Bool) (s : List Char) : Option (List Triple) :=
  ((lines s).mapM (readStatementLine? graphs)).map (·.filterMap id)

end Rdf

end Thesaurus
