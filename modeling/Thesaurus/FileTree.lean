import Thesaurus.FilePath

/-!
# File trees

A directory of text files and of further directories, in which paths name files. It lies somewhere
within further directories, of which nothing else is known.

- `FileEntry`: what a path may lead to.
- `FileTree`: the files and directories, with `FileTree.look?` to find them.
- `FileTree.createDirectories?`, `FileTree.write?`: the ways in which a tree grows.
-/

namespace Thesaurus

/-- What a path may lead to: a file with a text, or a directory. -/
inductive FileEntry where
  | file (text : String)
  | directory
deriving DecidableEq, Repr

/-- The files and directories below a directory. `entries` holds each entry with its place, the
latest first; an entry hides the older ones of its place. A place is a list of names, before which
there are steps back if it lies outside the directory. -/
structure FileTree where
  entries : List (List String × FileEntry) := []

namespace FileTree

open FilePath

/-- Whether a place is the directory itself, or one that it lies in. -/
def isAround (place : List String) : Bool :=
  place.all (· == "..")

/-- The place of the directory that a directory lies in. -/
def stepBack (place : List String) : List String :=
  if isAround place then place ++ [".."] else place.dropLast

/-- The entry at a place. -/
def entry? (t : FileTree) (place : List String) : Option FileEntry :=
  if isAround place then some .directory else t.entries.lookup place

/-- The tree with an entry at a place. -/
def add (t : FileTree) (place : List String) (entry : FileEntry) : FileTree :=
  ⟨(place, entry) :: t.entries⟩

/-- The place of the directory to which steps lead from another. -/
def walk? (t : FileTree) : List String → List String → Option (List String)
  | [], place => some place
  | step :: steps, place =>
    if step == ".." then t.walk? steps (stepBack place)
    else if t.entry? (place ++ [step]) = some .directory then t.walk? steps (place ++ [step])
    else none

/-- Whether a path can be followed at all: it has at most 4095 bytes, and starts in the tree. -/
def canFollow (path : String) : Bool :=
  path.utf8ByteSize ≤ 4095 && !isAbsolute path

/-- What a path leads to. -/
def look? (t : FileTree) (path : String) : Option FileEntry :=
  let steps := steps path
  if path == "" || !canFollow path then none
  else
    match fileName? path with
    | none => (t.walk? steps []).map fun _ => .directory
    | some name =>
      match t.walk? steps.dropLast [] with
      | none => none
      | some place =>
        match t.entry? (place ++ [name]) with
        | some (.file text) => if endsIdle path then none else some (.file text)
        | entry => entry

/-- Whether a file can have the given name. -/
def isName (name : String) : Bool :=
  name.utf8ByteSize ≤ 255 && !name.toList.contains '\x00'

/-- The tree in which steps lead from one directory to the next, with those that were missing. -/
def createSteps? : List String → List String → FileTree → Option FileTree
  | [], _, t => some t
  | step :: steps, place, t =>
    if step == ".." then createSteps? steps (stepBack place) t
    else
      match t.entry? (place ++ [step]) with
      | some .directory => createSteps? steps (place ++ [step]) t
      | some (.file _) => none
      | none =>
        if isName step then
          createSteps? steps (place ++ [step]) (t.add (place ++ [step]) .directory)
        else none

/-- The tree with all directories on a path, including the one it leads to. -/
def createDirectories? (t : FileTree) (path : String) : Option FileTree :=
  if canFollow path then createSteps? (steps path) [] t else none

/-- The tree in which a path leads to a file with the given text. Its directory must exist. -/
def write? (t : FileTree) (path text : String) : Option FileTree :=
  if !canFollow path || endsIdle path then none
  else
    match fileName? path, t.walk? (steps path).dropLast [] with
    | some name, some place =>
      if t.entry? (place ++ [name]) = some .directory || !isName name then none
      else some (t.add (place ++ [name]) (.file text))
    | _, _ => none

/-- The tree with the given files and the directories they lie in. Files that cannot be written are
left out. -/
def ofFiles (files : List (String × String)) : FileTree :=
  files.foldl (fun t (path, text) =>
    (((parent? path).bind t.createDirectories?).bind (·.write? path text)).getD t) {}

end FileTree

end Thesaurus
