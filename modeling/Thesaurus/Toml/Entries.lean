import Thesaurus.Toml.Value

/-!
# Tables in the making (design §E)

A document builds its tables piece by piece, and may come back to some of them but not to others.

- `Origin`: how a table came to be, which decides what may be added to it.
- `Item`: a value, a table or a list of tables in the making.
- `insertAt?`, `openTable?`, `openElement?`: what an entry and the two kinds of headers do.
- `Item.toValue`: the value in the end.
-/

namespace Thesaurus

namespace Toml

/-- How a table came to be: by a header of its own, by the header of a table inside it, or by a key
with dots. -/
inductive Origin where
  | header
  | implied
  | dotted
deriving DecidableEq, Repr

/-- What a name stands for while a document is read: a complete value, a table, or a list of tables
with a header each, of which only the last can grow. -/
inductive Item where
  | value (value : Value)
  | table (origin : Origin) (entries : List (String × Item))
  | tables (elements : List (List (String × Item)))

/-- The entries of a table in the making. -/
abbrev Entries := List (String × Item)

/-- Gives a name a new item, in its place or at the end. -/
def put (name : String) (item : Item) : Entries → Entries
  | [] => [(name, item)]
  | (other, old) :: rest =>
    if other = name then (name, item) :: rest else (other, old) :: put name item rest

/-- Changes the table at a path below a table. Tables on the way that do not exist are created, by
dots or by implication. Values bar the way, and so do tables with headers if the path was written
with dots. -/
def changeAt? (dotted : Bool) (change : Origin → Entries → Option Entries) :
    List String → Origin → Entries → Option Entries
  | [], origin, entries => change origin entries
  | name :: path, _, entries =>
    let created : Origin := if dotted then .dotted else .implied
    match entries.lookup name with
    | none =>
      (changeAt? dotted change path created []).map fun inner =>
        put name (.table created inner) entries
    | some (.value _) => none
    | some (.table origin inner) =>
      if dotted && origin == .header then none
      else
        (changeAt? dotted change path origin inner).map fun inner =>
          put name (.table origin inner) entries
    | some (.tables elements) =>
      match elements.getLast? with
      | none => none
      | some element =>
        (changeAt? dotted change path .header element).map fun element =>
          put name (.tables (elements.dropLast ++ [element])) entries

/-- Adds an entry under a key of one or more names. The name must be new, and a table that the dots
of a key lead to must have come to be by dots. -/
def insertAt? (path : List String) (name : String) (value : Value) (entries : Entries) :
    Option Entries :=
  changeAt? true (fun origin inner =>
    if (!path.isEmpty && origin != .dotted) || (inner.lookup name).isSome then none
    else some (inner ++ [(name, .value value)])) path .header entries

/-- Opens the table that a header names. It must be new, or only implied so far. -/
def openTable? (path : List String) (name : String) (entries : Entries) : Option Entries :=
  changeAt? false (fun _ inner =>
    match inner.lookup name with
    | none => some (put name (.table .header []) inner)
    | some (.table .implied old) => some (put name (.table .header old) inner)
    | some _ => none) path .header entries

/-- Opens a new element of the list of tables that a header names. -/
def openElement? (path : List String) (name : String) (entries : Entries) : Option Entries :=
  changeAt? false (fun _ inner =>
    match inner.lookup name with
    | none => some (put name (.tables [[]]) inner)
    | some (.tables elements) => some (put name (.tables (elements ++ [[]])) inner)
    | some _ => none) path .header entries

/-! ## Values in the end -/

mutual

/-- The value that an item has become. -/
def Item.toValue : Item → Value
  | .value value => value
  | .table _ entries => .table (entriesToValues entries)
  | .tables elements => .array (elementsToValues elements)

/-- The values that the entries of a table have become. -/
def entriesToValues : List (String × Item) → List (String × Value)
  | [] => []
  | (name, item) :: rest => (name, item.toValue) :: entriesToValues rest

/-- The tables that the elements of a list have become. -/
def elementsToValues : List (List (String × Item)) → List Value
  | [] => []
  | entries :: rest => .table (entriesToValues entries) :: elementsToValues rest

end

end Toml

end Thesaurus
