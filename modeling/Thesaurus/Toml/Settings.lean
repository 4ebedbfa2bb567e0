import Thesaurus.Toml.Quoted
import Thesaurus.Toml.Value

/-!
# Written settings (design §E)

The text layer that `save` is built on takes tables of settings to documents in the pretty form: a
line for each setting, and behind them the tables, each below an empty line and a header of its own.

- `Setting`: a text or a switch.
- `Settings`: the settings of a document and of its tables.
- `Settings.write`: the document.
-/

namespace Thesaurus

namespace Toml

/-- A text or a switch, which is written on one line. -/
inductive Setting where
  | text (text : String)
  | switch (on : Bool)
deriving DecidableEq, Repr

/-- The value that a setting has in a table. -/
def Setting.toValue : Setting → Value
  | text t => .string t
  | switch on => .boolean on

/-- What stands for a setting behind the equals sign. -/
def Setting.write : Setting → List Char
  | text t => quote t.toList
  | switch true => ['t', 'r', 'u', 'e']
  | switch false => ['f', 'a', 'l', 's', 'e']

/-- Settings under their names, outside of all tables and in tables. -/
structure Settings where
  outer : List (String × Setting)
  tables : List (String × List (String × Setting)) := []

/-- The entries of a table of settings. -/
def settingEntries (settings : List (String × Setting)) : List (String × Value) :=
  settings.map fun (name, s) => (name, s.toValue)

/-- The table that is written. -/
def Settings.entries (s : Settings) : List (String × Value) :=
  settingEntries s.outer ++ s.tables.map fun (name, inner) => (name, .table (settingEntries inner))

/-- The line of a setting. -/
def settingLine (name : String) (s : Setting) : List Char :=
  name.toList ++ ' ' :: '=' :: ' ' :: s.write ++ ['\n']

/-- The lines of settings. -/
def settingLines (settings : List (String × Setting)) : List Char :=
  settings.flatMap fun (name, s) => settingLine name s

/-- The header of a table. -/
def tableLine (name : String) : List Char :=
  '[' :: name.toList ++ [']', '\n']

/-- The document with the given settings. -/
def Settings.write (s : Settings) : String :=
  String.ofList (settingLines s.outer ++
    s.tables.flatMap fun (name, inner) => '\n' :: (tableLine name ++ settingLines inner))

end Toml

end Thesaurus
