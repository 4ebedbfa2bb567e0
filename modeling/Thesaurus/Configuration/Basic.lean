import Thesaurus.Notation.Format
import Thesaurus.Text.Blank

/-!
# Configurations (design §6, §E)

- `Configuration`: what a transform is asked to do.
- `Configuration.validate`: whether it can be done.
- `ConfigurationError`: why a configuration could not be read, written or used.
-/

namespace Thesaurus

/-- What a transform is asked to do (§6): the tag of the language whose labels are preferred,
whether schemes and collections are shown, whether IRIs are given a URL form, and whether and how
siblings are sorted by notation. -/
structure Configuration where
  primaryLanguage : String := "en"
  conceptSchemes : Bool := false
  collections : Bool := false
  resolveUrls : Bool := false
  notationSort : Option Notation.Sorting := none
deriving DecidableEq, Inhabited, Repr

/-- Why a configuration could not be read, written or used: a file could not be read, its text is
not TOML of the expected shape, a file or its directory could not be written, or the primary
language is blank. -/
inductive ConfigurationError where
  | read (path : String)
  | parse
  | write (path : String)
  | blankLanguage
deriving DecidableEq, Repr

namespace ConfigurationError

/-- The short identifier of the kind of error. -/
def code : ConfigurationError → String
  | read _ => "skos::config::read"
  | parse => "skos::config::parse"
  | write _ => "skos::config::write"
  | blankLanguage => "skos::config::invalid"

/-- What is wrong, in one line. -/
def message : ConfigurationError → String
  | read path => "failed to read transform config: " ++ path
  | parse => "failed to parse transform config"
  | write path => "failed to write transform config: " ++ path
  | blankLanguage => "invalid configuration: primary_language must not be empty"

end ConfigurationError

namespace Configuration

/-- Whether resources of unknown kind are left out of the graph. -/
def filtersByType (c : Configuration) : Bool :=
  c.conceptSchemes || c.collections

/-- Whether a configuration can drive a transform: the primary language must not be blank. -/
def validate (c : Configuration) : Except ConfigurationError Unit :=
  if (Text.trimChars c.primaryLanguage.toList).isEmpty then .error .blankLanguage else .ok ()

end Configuration

end Thesaurus
