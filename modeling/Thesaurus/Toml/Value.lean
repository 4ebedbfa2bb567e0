/-!
# TOML values (design §E)

- `Toml.Value`: what a TOML document consists of.
-/

namespace Thesaurus

namespace Toml

/-- A value. Numbers, dates and times are kept as they are written, and no name occurs twice in a
table. -/
inductive Value where
  | string (text : String)
  | boolean (value : Bool)
  | number (written : String)
  | moment (written : String)
  | array (items : List Value)
  | table (entries : List (String × Value))
deriving Inhabited

end Toml

end Thesaurus
