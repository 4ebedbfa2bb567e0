import Thesaurus.Notation.Format
import Thesaurus.Number.Binary64
import Thesaurus.Order
import Thesaurus.Text.Blank
import Thesaurus.Text.LowerCase
import Thesaurus.Text.Segments

/-!
# Notation keys (design §4.5)

A notation is read in a format into a key, and keys are compared.

- `Fault`: why a notation could not be read, with its wording.
- `Key`: a notation that was read.
- `Format.parse`: reads a notation.
- `Key.compare`, `compareOptional`: the order of keys, and of keys that may be missing.
-/

namespace Thesaurus

namespace Notation

/-! ## Faults -/

/-- Why a notation could not be read (§4.5): a segment of a dotted notation is no whole number, or a
float notation is no finite decimal number. -/
inductive Fault where
  | malformedDotted (text iri segment : String)
  | malformedFloat (text iri : String)
deriving DecidableEq, Repr

namespace Fault

/-- The short identifier of the kind of fault. -/
def code : Fault → String
  | malformedDotted .. => "skos::notation::dotted"
  | malformedFloat .. => "skos::notation::float"

/-- What is wrong, in one line. -/
def message : Fault → String
  | malformedDotted text iri segment =>
    "notation \"" ++ text ++ "\" of " ++ iri ++ " is not dotted-numeric (bad segment \"" ++ segment
      ++ "\")"
  | malformedFloat text iri => "notation \"" ++ text ++ "\" of " ++ iri ++ " is not a finite number"

/-- What the fault means for someone who browses the forest. -/
def explanation : Fault → String
  | malformedDotted text iri _ =>
    "Sorting by notation is unavailable: \"" ++ text ++ "\" on " ++ iri
      ++ " is not a dotted number like 1.2.3."
  | malformedFloat text iri =>
    "Sorting by notation is unavailable: \"" ++ text ++ "\" on " ++ iri ++ " is not a number."

end Fault

/-! ## Keys -/

/-- A notation that was read, ready to be compared: the text in lower case, the numbers between the
dots, or the nearest binary number. -/
inductive Key where
  | alpha (text : String)
  | dotted (segments : List Nat)
  | float (value : Binary64)
deriving DecidableEq

/-- Compares two sequences of numbers as if both went on with zeros. -/
def compareDotted : List Nat → List Nat → Ordering
  | [], ys => if ys.all (· == 0) then .eq else .lt
  | xs, [] => if xs.all (· == 0) then .eq else .gt
  | x :: xs, y :: ys => (compare x y).then (compareDotted xs ys)

namespace Key

/-- The place of a key's format among the formats. -/
def rank : Key → Nat
  | alpha _ => 0
  | dotted _ => 1
  | float _ => 2

/-- Compares keys of one format by what they hold, and keys of different formats by format. -/
def compare : Key → Key → Ordering
  | alpha a, alpha b => Ord.compare a b
  | dotted a, dotted b => compareDotted a b
  | float a, float b => a.compareBits b
  | a, b => Ord.compare a.rank b.rank

end Key

/-- Compares keys that may be missing: a missing key comes after every other. -/
def compareOptional : Option Key → Option Key → Ordering :=
  absentLast Key.compare

/-! ## Reading -/

/-- Every segment of a dotted notation is below this bound. -/
def segmentBound : Nat := 0x10000000000000000

/-- Reads a segment: digits, after an optional plus sign, of a number below the bound. -/
def readSegment? (s : List Char) : Option Nat :=
  let digits := match s with
    | '+' :: rest => rest
    | _ => s
  if !digits.isEmpty && digits.all Char.isDigit && Decimal.valueOf digits < segmentBound then
    some (Decimal.valueOf digits)
  else none

/-- Reads each segment; an error gives the first that is not a number. -/
def readSegments : List (List Char) → Except (List Char) (List Nat)
  | [] => .ok []
  | s :: rest =>
    match readSegment? s with
    | none => .error s
    | some n =>
      match readSegments rest with
      | .error bad => .error bad
      | .ok ns => .ok (n :: ns)

namespace Format

/-- Reads the notation `text` of the resource `iri`. Blanks around numbers do not count. -/
def parse (format : Format) (text iri : String) : Except Fault Key :=
  match format with
  | alpha => .ok (.alpha (Text.lowerCase text))
  | dotted =>
    match readSegments (Text.segments '.' (Text.trimChars text.toList)) with
    | .ok numbers => .ok (.dotted numbers)
    | .error bad => .error (.malformedDotted text iri (String.ofList bad))
  | float =>
    match Binary64.read? (Text.trimChars text.toList) with
    | some value => .ok (.float value)
    | none => .error (.malformedFloat text iri)

/-- Compares two notations. The first is read first. -/
def compare (format : Format) (a b : String) : Except Fault Ordering :=
  match format.parse a "" with
  | .error fault => .error fault
  | .ok x =>
    match format.parse b "" with
    | .error fault => .error fault
    | .ok y => .ok (x.compare y)

end Format

end Notation

end Thesaurus
