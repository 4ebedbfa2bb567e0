import Thesaurus.Rdf.NTriples

/-!
# Turtle (design §F.7)

Documents in which IRIs are shortened and statements share their subjects and predicates.

- `Turtle.State`: what a reader has come to know, and the statements so far.
- `Turtle.sayObject`: states an object, which may be the subject of further statements in brackets.
- `readTurtle?`: all statements of a document.

A statement is complete with the last token of its object, and a text without a tag or a type only
with the token after it. Where a token completes several statements, the latest comes first.
-/

namespace Thesaurus

namespace Rdf

namespace Turtle

open Text (Round iterate)

/-- What a reader of Turtle knows: the base of references, what prefixes stand for (the latest
first), and how many blank nodes had no label. Statements that the present token completes are in
`batch`, the latest first, and those of earlier tokens in `earlier`; `left` counts the tokens that
follow. -/
structure State where
  base : Option IriReference := none
  spaces : List (List Char × List Char) := []
  unlabelled : Nat := 0
  earlier : Array Triple := #[]
  batch : List Triple := []
  left : Nat := 0

namespace State

/-- The IRI of a reference. -/
def resolve? (st : State) (written : List Char) : Option (List Char) :=
  match st.base with
  | none => if isIri written then some written else none
  | some base =>
    ((IriReference.ofChars? written).bind base.resolve?).map IriReference.toChars

/-- The IRI of a name whose parts mean `start` and `member`. It is checked if the name is in doubt,
or if `member` might continue a host. -/
def joinName? (start member : List Char) (doubtful : Bool) : Option (List Char) :=
  let iri := start ++ member
  if (doubtful || (IriReference.split start).path.isEmpty) && !isIri iri then none else some iri

/-- The IRI that a token stands for. -/
def iri? (st : State) : Token → Option String
  | .iri written => (st.resolve? written).map String.ofList
  | .name space member doubtful =>
    ((st.spaces.lookup space).bind (joinName? · member doubtful)).map String.ofList
  | _ => none

/-- A blank node that no label names, for labels have no brackets. -/
def fresh (st : State) : Node × State :=
  (.blank ("[" ++ toString st.unlabelled ++ "]"), { st with unlabelled := st.unlabelled + 1 })

/-- One more statement, which is complete when `left` tokens are left. -/
def add (st : State) (left : Nat) (subject : Node) (predicate : String) (object : Object) : State :=
  let triple := ⟨subject, predicate, object⟩
  if left = st.left then { st with batch := triple :: st.batch }
  else { st with earlier := st.earlier ++ st.batch, batch := [triple], left }

/-- All statements so far. -/
def triples (st : State) : List Triple :=
  st.earlier.toList ++ st.batch

/-- A new base. -/
def withBase? (st : State) (written : List Char) : Option State :=
  ((st.resolve? written).bind fullIri?).map fun base => { st with base := some base }

/-- A new meaning of the first part of names. -/
def withSpace? (st : State) (space written : List Char) : Option State :=
  (st.resolve? written).map fun start => { st with spaces := (space, start) :: st.spaces }

end State

/-- Reads an object and states it of a subject and a predicate, together with the statements that
are made of it in its own brackets. -/
abbrev ObjectReader := Node → String → State → List Token → Option (State × List Token)

/-- The predicate that a token stands for. -/
def predicate? (st : State) : Token → Option String
  | .word ['a'] => some typeIri
  | token => st.iri? token

/-- One object of a list, and whether a comma promises another. -/
def objectRound (object : ObjectReader) (subject : Node) (predicate : String) (st : State)
    (tokens : List Token) : Option (Round Token State) :=
  match object subject predicate st tokens with
  | none => none
  | some (st, .mark ',' :: rest) => some (.more st rest)
  | some (st, rest) => some (.last st rest)

/-- Whether no further predicate follows. -/
def endsPredicates : List Token → Bool
  | [] => true
  | token :: _ => [.mark '.', .mark ']', .mark ')'].contains token

/-- One predicate and its objects, and whether semicolons promise another. -/
def predicateRound (object : ObjectReader) (subject : Node) (st : State) (tokens : List Token) :
    Option (Round Token State) :=
  match tokens with
  | [] => none
  | token :: rest =>
    match predicate? st token with
    | none => none
    | some predicate =>
      match iterate (objectRound object subject predicate) st rest with
      | none => none
      | some (st, .mark ';' :: rest) =>
        let rest := rest.dropWhile (· == .mark ';')
        some (if endsPredicates rest then .last st rest else .more st rest)
      | some (st, rest) => some (.last st rest)

/-- Predicates and their objects. -/
def readPredicates (object : ObjectReader) (subject : Node) (st : State) (tokens : List Token) :
    Option (State × List Token) :=
  iterate (predicateRound object subject) st tokens

/-- Predicates and their objects, and the bracket after them. -/
def readBracket (object : ObjectReader) (subject : Node) (st : State) (tokens : List Token) :
    Option (State × List Token) :=
  match readPredicates object subject st tokens with
  | some (st, .mark ']' :: rest) => some (st, rest)
  | _ => none

/-- One item of a list in parentheses, which `cell` is to hold, and the cell of the next. -/
def itemRound (object : ObjectReader) (state : State × Node) (tokens : List Token) :
    Option (Round Token (State × Node)) :=
  let (st, cell) := state
  match object cell firstIri st tokens with
  | none | some (_, []) => none
  | some (st, .mark ')' :: rest) =>
    some (.last (st.add rest.length cell restIri (.node (.iri nilIri)), cell) rest)
  | some (st, token :: rest) =>
    let (next, st) := st.fresh
    some (.more (st.add rest.length cell restIri (.node next), next) (token :: rest))

/-- The items of a list in parentheses, of which `cell` is to hold the first. -/
def readItems (object : ObjectReader) (cell : Node) (st : State) (tokens : List Token) :
    Option (State × List Token) :=
  (iterate (itemRound object) (st, cell) tokens).map fun ((st, _), rest) => (st, rest)

/-- How many tokens are left when a text is complete, where `before` tokens follow the text itself
and `rest` what belongs to it. -/
def leftAfterText (before : Nat) (rest : List Token) : Nat :=
  if rest.length = before then before - 1 else rest.length

/-- States an object that is a single token, or a text and what belongs to it. -/
def saySimple : ObjectReader
  | subject, predicate, st, tokens =>
    match tokens with
    | .string text _ :: rest =>
      (literalOf st.iri? text rest).map fun (l, rest') =>
        (st.add (leftAfterText rest.length rest') subject predicate (.literal l), rest')
    | token :: rest =>
      (simple? st token).map fun object => (st.add rest.length subject predicate object, rest)
    | [] => none
where
  /-- The object that a single token stands for. -/
  simple? (st : State) : Token → Option Object
    | .blank label => some (.node (.blank (String.ofList label)))
    | .number written => some (.literal ⟨String.ofList written, none⟩)
    | .word written =>
      if written == "true".toList || written == "false".toList then
        some (.literal ⟨String.ofList written, none⟩)
      else none
    | token => (st.iri? token).map fun iri => .node (.iri iri)

/-- States an object in which brackets lie at most `depth` deep within brackets. -/
def sayObjectWithin : Nat → ObjectReader
  | depth, subject, predicate, st, tokens =>
    match tokens with
    | .mark '[' :: .mark ']' :: rest =>
      let (node, st) := st.fresh
      some (st.add rest.length subject predicate (.node node), rest)
    | .mark '(' :: .mark ')' :: rest =>
      some (st.add rest.length subject predicate (.node (.iri nilIri)), rest)
    | .mark '[' :: rest =>
      match depth with
      | 0 => none
      | depth + 1 =>
        let (node, st) := st.fresh
        (readBracket (sayObjectWithin depth) node st rest).map fun (st, rest) =>
          (st.add rest.length subject predicate (.node node), rest)
    | .mark '(' :: rest =>
      match depth with
      | 0 => none
      | depth + 1 =>
        let (cell, st) := st.fresh
        let st := st.add (rest.length - 1) subject predicate (.node cell)
        readItems (sayObjectWithin depth) cell st rest
    | tokens => saySimple subject predicate st tokens

/-- States an object. Brackets cannot lie deeper than there are tokens. -/
def sayObject : ObjectReader :=
  fun subject predicate st tokens => sayObjectWithin tokens.length subject predicate st tokens

/-- The subject of a sentence, which may have brackets of its own. -/
def readSubject (st : State) : List Token → Option (Node × State × List Token)
  | .mark '[' :: .mark ']' :: rest => some (st.fresh.1, st.fresh.2, rest)
  | .mark '(' :: .mark ')' :: rest => some (.iri nilIri, st, rest)
  | .mark '[' :: rest =>
    (readBracket sayObject st.fresh.1 st.fresh.2 rest).map fun read => (st.fresh.1, read)
  | .mark '(' :: rest =>
    (readItems sayObject st.fresh.1 st.fresh.2 rest).map fun read => (st.fresh.1, read)
  | .blank label :: rest => some (.blank (String.ofList label), st, rest)
  | token :: rest => (st.iri? token).map fun iri => (.iri iri, st, rest)
  | [] => none

/-- Whether tokens start with brackets that hold predicates, which may be all that is said of their
node. -/
def opensPredicates : List Token → Bool
  | .mark '[' :: .mark ']' :: _ => false
  | .mark '[' :: _ => true
  | _ => false

/-- A subject with its predicates, and the point after them. -/
def readSentence (st : State) (tokens : List Token) : Option (State × List Token) :=
  match readSubject st tokens with
  | some (subject, st, rest) =>
    let said :=
      if opensPredicates tokens && rest.head? == some (.mark '.') then some (st, rest)
      else readPredicates sayObject subject st rest
    match said with
    | some (st, .mark '.' :: rest) => some (st, rest)
    | _ => none
  | none => none

/-- Whether a word is a given one, in whatever case. -/
def isWord (word : String) (written : List Char) : Bool :=
  lowerTag written == word.toList

/-- A directive, or a sentence. -/
def readTurtleRound (st : State) (tokens : List Token) : Option (Round Token State) :=
  let sentence := (readSentence st tokens).map fun (st, rest) => Round.more st rest
  match tokens with
  | [] => some (.last st [])
  | .tag word :: .name space [] _ :: .iri written :: .mark '.' :: rest =>
    if word == "prefix".toList then (st.withSpace? space written).map (.more · rest) else none
  | .tag word :: .iri written :: .mark '.' :: rest =>
    if word == "base".toList then (st.withBase? written).map (.more · rest) else none
  | .word word :: .name space [] _ :: .iri written :: rest =>
    if isWord "prefix" word then (st.withSpace? space written).map (.more · rest) else sentence
  | .word word :: .iri written :: rest =>
    if isWord "base" word then (st.withBase? written).map (.more · rest) else sentence
  | _ => sentence

end Turtle

/-- The statements of a Turtle document, in the order in which they are complete. -/
def readTurtle? (s : List Char) : Option (List Triple) :=
  match tokens? s with
  | none => none
  | some tokens =>
    (Text.iterate Turtle.readTurtleRound {} tokens).map fun (st, _) => st.triples

end Rdf

end Thesaurus
