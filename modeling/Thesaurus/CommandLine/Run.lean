import Thesaurus.CommandLine.Arguments
import Thesaurus.Configuration.Storage
import Thesaurus.Report

/-!
# Runs (design §F.8)

- `Exit`: how a run ends.
- `run`: the run that arguments ask for, where files are looked up by a given function.
-/

namespace Thesaurus

namespace CommandLine

/-- How a run ends: with a code that tells success from failure, what is printed and what is
complained about. -/
structure Exit where
  code : Nat
  output : String := ""
  complaint : String := ""
deriving DecidableEq, Repr

/-- How the program is used. -/
def usage : String :=
  "Usage: skos-forest [--config <path>] <command> [<options>]\n\n" ++
    "Commands: build, stats, config\n\n" ++
    "Options: --input <path>, --format <format>, --schemes, --collections, --resolve-urls,\n" ++
    "  --notation <format>, --sort-by-notation, --language <tag>, --pretty\n"

/-- The name and the version of the program. -/
def versionLine : String :=
  "skos-forest 0.1.0\n"

/-- How a run ends that does not begin. -/
def Exit.ofStop : Stop → Exit
  | .misuse => { code := 2, complaint := usage }
  | .help => { code := 0, output := usage }
  | .version => { code := 0, output := versionLine }

/-- How a run ends that prints a text or fails for a reason. -/
def Exit.ofResult : Except String String → Exit
  | .ok output => { code := 0, output }
  | .error reason => { code := 1, complaint := reason ++ "\n" }

/-- A configuration with what the command line changes about it. -/
def Overrides.apply (o : Overrides) (c : Configuration) : Configuration :=
  { primaryLanguage := o.language.getD c.primaryLanguage
    conceptSchemes := c.conceptSchemes || o.schemes
    collections := c.collections || o.collections
    resolveUrls := c.resolveUrls || o.resolveUrls
    notationSort := o.sorting.or c.notationSort }

/-- The configuration of a run, given the one that was loaded (`effective_config`). It must be valid
after the changes as it was before. -/
def effective (o : Overrides) (loaded : Except ConfigurationError Configuration) :
    Except ConfigurationError Configuration :=
  match loaded with
  | .error e => .error e
  | .ok c =>
    match (o.apply c).validate with
    | .error e => .error e
    | .ok () => .ok (o.apply c)

/-- What is printed of the forest of statements. -/
def forestReport (pretty : Bool) (c : Configuration) (triples : List Rdf.Triple) :
    Except String String :=
  match transform c triples with
  | .error (.configuration e) => .error e.message
  | .error (.defect d) => .error d.message
  | .ok o => .ok ((if pretty then o.toJson.pretty else o.toJson.compact) ++ "\n")

/-- What is printed of the statistics of statements. -/
def statsReport (c : Configuration) (triples : List Rdf.Triple) : Except String String :=
  match Session.start c with
  | .error e => .error e.message
  | .ok s =>
    match (s.ingestAll triples).bind Session.stats with
    | .error d => .error d.message
    | .ok (_, stats) => .ok (stats.toJson.pretty ++ "\n")

section

variable {m : Type → Type} [Monad m] (look : String → m (Option FileEntry))

/-- The statements of a source, and what is printed of them. -/
def reportOn (source : Source) (report : List Rdf.Triple → Except String String) :
    m (Except String String) :=
  match Rdf.formatFor source.path source.format with
  | .error e => pure (.error e.message)
  | .ok f => do
    match Rdf.readEntry source.path f (← look source.path) with
    | .error e => return .error e.message
    | .ok triples => return report triples

/-- What a command prints under a configuration. -/
def Command.report (c : Configuration) : Command → m (Except String String)
  | .build source pretty => reportOn look source (forestReport pretty c)
  | .stats source => reportOn look source (statsReport c)
  | .config => pure (.ok c.toToml)

/-- What an invocation prints. -/
def Invocation.report (i : Invocation) : m (Except String String) := do
  let loaded ← match i.configuration with
    | none => pure (.ok {})
    | some path => do pure (Configuration.ofEntry path (← look path))
  match effective i.overrides loaded with
  | .error e => return .error e.message
  | .ok c => i.command.report look c

/-- The run that arguments ask for (`main`). -/
def run (arguments : List String) : m Exit :=
  match Invocation.ofArguments arguments with
  | .error stop => pure (.ofStop stop)
  | .ok i => do return .ofResult (← i.report look)

end

end CommandLine

end Thesaurus
