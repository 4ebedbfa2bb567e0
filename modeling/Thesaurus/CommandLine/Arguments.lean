import Thesaurus.Configuration.Basic
import Thesaurus.Rdf.Format

/-!
# Arguments (design §F.8)

- `Setting`: what one option sets.
- `Invocation`: what the arguments ask for.
- `Invocation.ofArguments`: the invocation that arguments write, or the reason why there is none.
-/

namespace Thesaurus

namespace CommandLine

/-! ## Options -/

/-- What one option sets: the files of the configuration and of the statements, the format of the
latter, what is shown, how notations are read and whether they order siblings, the preferred
language, and whether the forest is printed over several lines. -/
inductive Setting where
  | configuration (path : String)
  | input (path : String)
  | format (format : Rdf.Format)
  | schemes
  | collections
  | resolveUrls
  | notationFormat (format : Notation.Format)
  | sortByNotation
  | language (tag : String)
  | pretty
deriving DecidableEq, Repr

namespace Setting

/-- The name of the option that makes a setting. -/
def option : Setting → String
  | configuration _ => "config"
  | input _ => "input"
  | format _ => "format"
  | schemes => "schemes"
  | collections => "collections"
  | resolveUrls => "resolve-urls"
  | notationFormat _ => "notation"
  | sortByNotation => "sort-by-notation"
  | language _ => "language"
  | pretty => "pretty"

/-- The path of the configuration that a setting names. -/
def configuration? : Setting → Option String
  | configuration path => some path
  | _ => none

/-- The path of the statements that it names. -/
def input? : Setting → Option String
  | input path => some path
  | _ => none

/-- The format of the statements that it names. -/
def format? : Setting → Option Rdf.Format
  | format f => some f
  | _ => none

/-- The format of notations that it names. -/
def notationFormat? : Setting → Option Notation.Format
  | notationFormat f => some f
  | _ => none

/-- The language that it names. -/
def language? : Setting → Option String
  | language tag => some tag
  | _ => none

/-- A path, which must not be empty. -/
def ofPath? (make : String → Setting) (path : String) : Option Setting :=
  if path.isEmpty then none else some (make path)

/-- How the value of an option is read, for the options that have one. -/
def reader? (option : String) : Option (String → Option Setting) :=
  match option with
  | "config" => some (ofPath? configuration)
  | "input" => some (ofPath? input)
  | "format" => some fun value => (Rdf.Format.keywords.lookup value).map format
  | "notation" => some fun value => (Notation.Format.ofName? value).map notationFormat
  | "language" => some fun value => some (language value)
  | _ => none

/-- The settings of options without a value. -/
def flags : List Setting :=
  [schemes, collections, resolveUrls, sortByNotation, pretty]

/-- The setting of an option without a value. -/
def ofFlag? (option : String) : Option Setting :=
  flags.find? fun s => s.option == option

end Setting

/-! ## Reading options -/

/-- Why arguments do not lead to a run: they are wrong, or ask for help or for the version. -/
inductive Stop where
  | misuse
  | help
  | version
deriving DecidableEq, Repr

/-- An argument split into an option and the value that it may hold after an equals sign, or none if
the argument is no option with a name. -/
def splitOption? (argument : String) : Option (String × Option String) :=
  match argument.toList with
  | '-' :: '-' :: c :: rest =>
    let text := c :: rest
    let name := String.ofList (text.takeWhile (· != '='))
    match text.dropWhile (· != '=') with
    | _ :: value => some (name, some (String.ofList value))
    | [] => some (name, none)
  | _ => none

/-- Whether an argument looks like an option, and so cannot be the value of another. -/
def isOptionLike (argument : String) : Bool :=
  match argument.toList with
  | '-' :: _ :: _ => true
  | _ => false

/-- What an argument that is no setting asks for: help, or at the top the version. -/
def stopOf (top : Bool) (argument : String) : Stop :=
  match argument.toList with
  | '-' :: 'h' :: _ => .help
  | '-' :: 'V' :: _ => if top then .version else .misuse
  | _ =>
    if argument == "--help" then .help
    else if argument == "--version" && top then .version
    else .misuse

/-- Adds a setting that is allowed and was not made before. -/
def addSetting (allowed : Setting → Bool) (settings : List Setting) (s : Option Setting) :
    Except Stop (List Setting) :=
  match s with
  | some s =>
    if allowed s && !settings.any (·.option == s.option) then .ok (settings ++ [s])
    else .error .misuse
  | none => .error .misuse

/-- Reads options up to the first argument that is none, and gives that argument and the rest. The
options are those that are `allowed`; at the `top`, more may be asked for. -/
def readOptions (top : Bool) (allowed : Setting → Bool) :
    List Setting → List String → Except Stop (List Setting × List String)
  | settings, [] => .ok (settings, [])
  | settings, argument :: rest =>
    if argument == "--" then if rest.isEmpty then .ok (settings, []) else .error .misuse
    else if !isOptionLike argument then .ok (settings, argument :: rest)
    else
      match splitOption? argument with
      | none => .error (stopOf top argument)
      | some (option, held) =>
        match Setting.reader? option, held, rest with
        | some read, some value, rest =>
          match addSetting allowed settings (read value) with
          | .ok settings => readOptions top allowed settings rest
          | .error stop => .error stop
        | some read, none, value :: rest =>
          if isOptionLike value then .error .misuse
          else
            match addSetting allowed settings (read value) with
            | .ok settings => readOptions top allowed settings rest
            | .error stop => .error stop
        | some _, none, [] => .error .misuse
        | none, some _, _ => .error .misuse
        | none, none, rest =>
          match Setting.ofFlag? option with
          | none => .error (stopOf top argument)
          | some flag =>
            match addSetting allowed settings (some flag) with
            | .ok settings => readOptions top allowed settings rest
            | .error stop => .error stop

/-! ## Invocations -/

/-- What the command line changes about a configuration: flags can only be raised, and the language
and the request to sort by notation are replaced if they are given. -/
structure Overrides where
  schemes : Bool
  collections : Bool
  resolveUrls : Bool
  language : Option String
  sorting : Option Notation.Sorting
deriving DecidableEq, Repr

/-- The file that the statements come from, with its format unless its name tells that. -/
structure Source where
  path : String
  format : Option Rdf.Format
deriving DecidableEq, Repr

/-- What is to be printed: the forest of statements, their statistics, or the configuration. -/
inductive Command where
  | build (source : Source) (pretty : Bool)
  | stats (source : Source)
  | config
deriving DecidableEq, Repr

/-- What the arguments ask for: the file with the configuration, what is changed about it, and what
is printed. -/
structure Invocation where
  configuration : Option String
  overrides : Overrides
  command : Command
deriving DecidableEq, Repr

/-- What settings change about a configuration. Siblings are only sorted by notation in a notation
format that is set along with it. -/
def Overrides.ofSettings? (settings : List Setting) : Option Overrides :=
  let format := settings.findSome? Setting.notationFormat?
  let byNotation := settings.contains .sortByNotation
  if byNotation && format.isNone then none
  else
    some
      { schemes := settings.contains .schemes
        collections := settings.contains .collections
        resolveUrls := settings.contains .resolveUrls
        language := settings.findSome? Setting.language?
        sorting := format.map fun f => ⟨f, if byNotation then .byNotation else .byLabel⟩ }

/-- The source that settings name. -/
def Source.ofSettings? (settings : List Setting) : Option Source :=
  (settings.findSome? Setting.input?).map fun path =>
    ⟨path, settings.findSome? Setting.format?⟩

/-- The path of the configuration that settings name. -/
def configurationPath? (settings : List Setting) : Option String :=
  settings.findSome? Setting.configuration?

/-- The subcommands. -/
inductive Subcommand where
  | build
  | stats
  | config
deriving DecidableEq, Repr

namespace Subcommand

/-- The name of a subcommand. -/
def name : Subcommand → String
  | build => "build"
  | stats => "stats"
  | config => "config"

/-- The subcommand of the given name. -/
def ofName? (s : String) : Option Subcommand :=
  [build, stats, config].find? (·.name == s)

/-- The settings that a subcommand allows. -/
def allows : Subcommand → Setting → Bool
  | build, _ => true
  | stats, s => s != .pretty
  | config, .input _ | config, .format _ | config, .pretty => false
  | config, _ => true

/-- The command that a subcommand and its settings make. -/
def toCommand? (c : Subcommand) (settings : List Setting) : Option Command :=
  match c with
  | build => (Source.ofSettings? settings).map (.build · (settings.contains .pretty))
  | stats => (Source.ofSettings? settings).map .stats
  | config => some .config

end Subcommand

/-- What a request for help about further words asks for: they name at most one subcommand. -/
def helpStop : List String → Stop
  | [] => .help
  | [name] => if (Subcommand.ofName? name).isSome || name == "help" then .help else .misuse
  | _ => .misuse

/-- The invocation that the arguments of a subcommand write. The configuration may have been set
before. -/
def Invocation.ofSubcommand (before : List Setting) (c : Subcommand) (arguments : List String) :
    Except Stop Invocation :=
  match readOptions false c.allows [] arguments with
  | .error stop => .error stop
  | .ok (_, _ :: _) => .error .misuse
  | .ok (settings, []) =>
    match Overrides.ofSettings? settings, c.toCommand? settings with
    | some overrides, some command =>
      .ok ⟨(configurationPath? settings).or (configurationPath? before), overrides, command⟩
    | _, _ => .error .misuse

/-- The invocation that arguments write. -/
def Invocation.ofArguments (arguments : List String) : Except Stop Invocation :=
  match readOptions true (fun s => s.option == "config") [] arguments with
  | .error stop => .error stop
  | .ok (_, []) => .error .misuse
  | .ok (before, name :: rest) =>
    match Subcommand.ofName? name with
    | some c => ofSubcommand before c rest
    | none => .error (if name == "help" then helpStop rest else .misuse)

end CommandLine

end Thesaurus
