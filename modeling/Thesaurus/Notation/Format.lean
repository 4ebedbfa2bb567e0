/-!
# Notation formats (design §4.5)

How notations are compared and which order siblings are shown in.

- `Format`: the three ways to read a notation, with `Format.name` and `Format.ofName?`.
- `Axis`: the order in which siblings are presented.
- `Sorting`: a format together with an axis.
-/

namespace Thesaurus

namespace Notation

/-- How notations are read and compared (§4.5): as text regardless of case, as whole numbers between
dots where missing ones at the end count as zero, or as decimal numbers. -/
inductive Format where
  | alpha
  | dotted
  | float
deriving DecidableEq, Inhabited, Repr

namespace Format

/-- The name of a format in configurations. -/
def name : Format → String
  | alpha => "alpha"
  | dotted => "dotted"
  | float => "float"

/-- All formats. -/
def all : List Format := [alpha, dotted, float]

/-- The format of the given name. -/
def ofName? (s : String) : Option Format :=
  all.find? (·.name = s)

end Format

/-- The order in which siblings are presented (§4.5): by label, where notations only give each
sibling a rank, or by notation. -/
inductive Axis where
  | byLabel
  | byNotation
deriving DecidableEq, Inhabited, Repr

namespace Axis

/-- The name of an axis in configurations. -/
def name : Axis → String
  | byLabel => "label"
  | byNotation => "notation"

/-- All axes. -/
def all : List Axis := [byLabel, byNotation]

/-- The axis of the given name. -/
def ofName? (s : String) : Option Axis :=
  all.find? (·.name = s)

end Axis

/-- A request to sort siblings by their notations (§6): how these are read, and the order that is
shown. -/
structure Sorting where
  format : Format := .alpha
  axis : Axis := .byLabel
deriving DecidableEq, Inhabited, Repr

end Notation

end Thesaurus
