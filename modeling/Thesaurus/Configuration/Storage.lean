import Thesaurus.Configuration.Toml
import Thesaurus.FileTree

/-!
# Configurations in files (design §E)

- `Configuration.ofEntry`: the configuration in what a path leads to.
- `Configuration.load`, `Configuration.save`: a configuration from and to a tree of files.
-/

namespace Thesaurus

namespace Configuration

section

variable (readTable? : String → Option (List (String × Toml.Value)))
  (write : Toml.Settings → String)

/-- The configuration in what a path leads to, which must be a file. -/
def ofEntryBy (path : String) : Option FileEntry → Except ConfigurationError Configuration
  | some (.file text) => ofTomlBy readTable? text
  | _ => .error (.read path)

/-- The configuration in the file that a path leads to. -/
def loadBy (files : FileTree) (path : String) : Except ConfigurationError Configuration :=
  ofEntryBy readTable? path (files.look? path)

/-- The tree in which a path leads to the written configuration. Missing directories on the path
are created; the error names the directory if that fails. -/
def saveBy (c : Configuration) (files : FileTree) (path : String) :
    Except ConfigurationError FileTree :=
  let put := fun (files : FileTree) =>
    match files.write? path (write c.settings) with
    | some files => .ok files
    | none => .error (.write path)
  match FilePath.parent? path with
  | none => put files
  | some parent =>
    match files.createDirectories? parent with
    | some files => put files
    | none => .error (.write parent)

end

/-- The configuration in what a path leads to. -/
def ofEntry : String → Option FileEntry → Except ConfigurationError Configuration :=
  ofEntryBy Toml.readTable?

/-- The configuration in the file that a path leads to. -/
def load : FileTree → String → Except ConfigurationError Configuration :=
  loadBy Toml.readTable?

/-- The tree in which a path leads to the written configuration. -/
def save : Configuration → FileTree → String → Except ConfigurationError FileTree :=
  saveBy Toml.Settings.write

end Configuration

end Thesaurus
