import Thesaurus.Text.Reader
import Thesaurus.Toml.Entries
import Thesaurus.Toml.Quoted
import Thesaurus.Toml.Scalar

/-!
# TOML documents (design §E)

- `readKey`, `readValue`: a key and a value at the front of a document.
- `Document`: the tables so far and the table that entries are added to.
- `readTable?`: the table that a whole document describes.
-/

namespace Thesaurus

namespace Toml

open Text (Reader Round iterate)

/-! ## Blanks, comments and line ends -/

/-- The blanks within a line. -/
def isLineBlank (c : Char) : Bool :=
  c == ' ' || c == '\t'

/-- What follows the blanks at the front. -/
def skipBlanks (s : List Char) : List Char :=
  s.dropWhile isLineBlank

/-- What follows the comment at the front, if there is one. -/
def skipComment : List Char → List Char
  | '#' :: rest => rest.dropWhile isPlain
  | s => s

/-- What follows the line break at the front. -/
def afterBreak? : List Char → Option (List Char)
  | '\n' :: rest => some rest
  | '\r' :: '\n' :: rest => some rest
  | _ => none

/-- What follows the end of a line: blanks, a comment, and a line break or the end of all. -/
def endLine? (s : List Char) : Option (List Char) :=
  match skipComment (skipBlanks s) with
  | [] => some []
  | c :: rest => afterBreak? (c :: rest)

/-- What follows blanks, comments and line breaks. -/
def skipSpace (inComment : Bool) : List Char → List Char
  | [] => []
  | '\n' :: rest => skipSpace false rest
  | '\r' :: '\n' :: rest => skipSpace false rest
  | c :: rest =>
    if inComment then if isPlain c then skipSpace true rest else c :: rest
    else if isLineBlank c then skipSpace false rest
    else if c == '#' then skipSpace true rest
    else c :: rest

/-! ## Keys -/

/-- The characters of names without quotes. -/
def isBareChar (c : Char) : Bool :=
  c.isAlphanum || c == '-' || c == '_'

/-- A name, with or without quotes. -/
def readName : Reader Char String
  | '\x22' :: rest => (readBasic rest).map fun (name, rest) => (String.ofList name, rest)
  | '\x27' :: rest => (readLiteral rest).map fun (name, rest) => (String.ofList name, rest)
  | s =>
    let name := s.takeWhile isBareChar
    if name.isEmpty then none else some (String.ofList name, s.dropWhile isBareChar)

/-- A key of at most `limit` names with dots between them, and the blanks around it: all names but
the last, and the last. -/
def readKeyUpTo : Nat → Reader Char (List String × String)
  | 0, _ => none
  | limit + 1, s =>
    match readName (skipBlanks s) with
    | none => none
    | some (name, rest) =>
      match skipBlanks rest with
      | '.' :: rest =>
        (readKeyUpTo limit rest).map fun ((path, last), rest) => ((name :: path, last), rest)
      | rest => some (([], name), rest)

/-- How many names a key may have, and how deep values may lie within values. -/
def maxDepth : Nat := 79

/-- A key, and the blanks around it. -/
def readKey : Reader Char (List String × String) :=
  readKeyUpTo maxDepth

/-! ## Values -/

/-- What follows the sign between a key and its value, and the blanks after it. -/
def afterEquals? : List Char → Option (List Char)
  | '=' :: rest => some (skipBlanks rest)
  | _ => none

/-- One item of an array, and the comma or bracket after it. -/
def readItem (value : Reader Char Value) (items : List Value) (s : List Char) :
    Option (Round Char (List Value)) :=
  match skipSpace false s with
  | ']' :: rest => some (.last items rest)
  | s =>
    match value s with
    | none => none
    | some (item, rest) =>
      match skipSpace false rest with
      | ',' :: rest => some (.more (items ++ [item]) rest)
      | ']' :: rest => some (.last (items ++ [item]) rest)
      | _ => none

/-- One entry of a table within braces, and the comma or brace after it. -/
def readEntry (value : Reader Char Value) (entries : Entries) (s : List Char) :
    Option (Round Char Entries) :=
  match readKey s with
  | none => none
  | some ((path, name), rest) =>
    match (afterEquals? rest).bind value with
    | none => none
    | some (v, rest) =>
      match insertAt? path name v entries with
      | none => none
      | some entries =>
        match skipBlanks rest with
        | ',' :: rest => some (.more entries rest)
        | '\x7d' :: rest => some (.last entries rest)
        | _ => none

/-- What is within braces. Neither line breaks nor a comma at the end are allowed. -/
def readBraces (value : Reader Char Value) (s : List Char) : Option (Entries × List Char) :=
  match skipBlanks s with
  | '\x7d' :: rest => some ([], rest)
  | s => iterate (readEntry value) [] s

/-- A value in which others lie at most `depth` deep. -/
def readValueWithin : Nat → Reader Char Value
  | depth, s =>
    match s with
    | '\x22' :: _ | '\x27' :: _ =>
      (readQuoted s).map fun (text, rest) => (.string (String.ofList text), rest)
    | '[' :: rest =>
      match depth with
      | 0 => none
      | depth + 1 =>
        (iterate (readItem (readValueWithin depth)) [] rest).map fun (items, rest) =>
          (.array items, rest)
    | '\x7b' :: rest =>
      match depth with
      | 0 => none
      | depth + 1 =>
        (readBraces (readValueWithin depth) rest).map fun (entries, rest) =>
          (.table (entriesToValues entries), rest)
    | s => readWord s

/-- A value. -/
def readValue : Reader Char Value :=
  readValueWithin maxDepth

/-! ## Documents -/

/-- What the lines read so far have made: the outermost table, and the path of the table that
entries are added to, which is given by the last header. -/
structure Document where
  entries : Entries := []
  current : List String := []

/-- Adds an entry to the current table. -/
def Document.insert? (d : Document) (path : List String) (name : String) (value : Value) :
    Option Document :=
  (changeAt? false (fun _ inner => insertAt? path name value inner) d.current .header
    d.entries).map fun entries => { d with entries }

/-- A line with a key and a value. -/
def readAssignment (d : Document) (s : List Char) : Option (Document × List Char) :=
  match readKey s with
  | none => none
  | some ((path, name), rest) =>
    match (afterEquals? rest).bind readValue with
    | none => none
    | some (value, rest) =>
      match endLine? rest, d.insert? path name value with
      | some rest, some d => some (d, rest)
      | _, _ => none

/-- The rest of a line with a header, which ends with the given brackets. -/
def readHeader (closing : List Char) (enter : List String → String → Entries → Option Entries)
    (d : Document) (s : List Char) : Option (Document × List Char) :=
  match readKey s with
  | none => none
  | some ((path, name), rest) =>
    match (Text.strip? closing rest).bind endLine?, enter path name d.entries with
    | some rest, some entries => some (⟨entries, path ++ [name]⟩, rest)
    | _, _ => none

/-- A line of a document. -/
def readLine (d : Document) (s : List Char) : Option (Round Char Document) :=
  let next := fun (r : Option (Document × List Char)) =>
    r.map fun (d, rest) => Round.more d rest
  match skipBlanks s with
  | [] => some (.last d [])
  | '[' :: '[' :: rest => next (readHeader [']', ']'] openElement? d rest)
  | '[' :: rest => next (readHeader [']'] openTable? d rest)
  | c :: rest =>
    if c == '#' || c == '\n' || c == '\r' then next ((endLine? (c :: rest)).map (d, ·))
    else next (readAssignment d (c :: rest))

/-- A document without the mark that may tell its encoding. -/
def dropMark : List Char → List Char
  | '\uFEFF' :: rest => rest
  | s => s

/-- The entries of the table that a whole document describes. -/
def readTable? (text : String) : Option (List (String × Value)) :=
  (iterate readLine {} (dropMark text.toList)).map fun (d, _) => entriesToValues d.entries

end Toml

end Thesaurus
