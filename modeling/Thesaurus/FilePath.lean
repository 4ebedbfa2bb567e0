import Thesaurus.Text.Segments

/-!
# File paths

- `FilePath.steps`: the steps of a path from one directory to the next.
- `FilePath.parent?`: the path of the directory that a path lies in.
- `FilePath.fileName?`, `FilePath.extension?`: the name at the end of a path, and its extension.
-/

namespace Thesaurus

namespace FilePath

/-- The parts of a path between its slashes. -/
def parts (path : String) : List String :=
  (Text.segments '/' path.toList).map String.ofList

/-- A part of a path that leads nowhere. -/
def isIdle (part : String) : Bool :=
  part == "" || part == "."

/-- The steps of a path from one directory to the next. -/
def steps (path : String) : List String :=
  (parts path).filter (!isIdle ·)

/-- Whether a path says that it leads to a directory, by its end. -/
def endsIdle (path : String) : Bool :=
  (parts path).getLast?.any isIdle

/-- Whether a path starts at the root of all files. -/
def isAbsolute (path : String) : Bool :=
  path.toList.head? == some '/'

/-- The parts of a path with a slash between neighbours. -/
def join (parts : List String) : String :=
  String.ofList (Text.joinSegments '/' (parts.map String.toList))

/-- The parts of a path without those at the end that lead nowhere, except for a dot that starts
the path. -/
def dropIdleEnd : List String → List String
  | [] => []
  | first :: others =>
    match (others.reverse.dropWhile isIdle).reverse with
    | [] => if first == "" then [] else [first]
    | kept => first :: kept

/-- The path of the directory that a path lies in: it is empty for a plain name. The root and the
empty path lie in none. -/
def parent? (path : String) : Option String :=
  match dropIdleEnd (parts path) with
  | [] => none
  | parts =>
    let parent := dropIdleEnd parts.dropLast
    if parent.isEmpty && isAbsolute path then some "/" else some (join parent)

/-- The last step of a path, if it is a name. -/
def fileName? (path : String) : Option String :=
  match (steps path).getLast? with
  | some name => if name == ".." then none else some name
  | none => none

/-- What follows the last dot of a file's name. A dot that starts the name does not count. -/
def extension? (path : String) : Option String :=
  match fileName? path with
  | none => none
  | some name =>
    match (Text.segments '.' name.toList).reverse with
    | [] | [_] => none
    | [_, []] => none
    | last :: _ => some (String.ofList last)

end FilePath

end Thesaurus
