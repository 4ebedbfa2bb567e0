import Thesaurus.Text.Segments

/-!
# Language tags (design §F.7)

- `isLanguageTag`: whether a text is put together as a language tag must be.
- `lowerTag`: the form of a tag in which case makes no difference.
-/

namespace Thesaurus

namespace Rdf

/-- A letter of ASCII in lower case. -/
def lowerTag (s : List Char) : List Char :=
  s.map Char.toLower

/-- Where the reading of a language tag stands: after a language with room for so many extensions,
after these, after a script, after a region or a variant, among the subtags of an extension, or
among private ones. The last two have begun once there is a subtag. -/
inductive TagState where
  | language (extensions : Nat)
  | extended
  | script
  | region
  | extension (begun : Bool)
  | privateUse (begun : Bool)

namespace TagState

/-- Whether a tag may end. -/
def mayEnd : TagState → Bool
  | extension begun | privateUse begun => begun
  | _ => true

/-- Whether a script may follow. -/
def takesScript : TagState → Bool
  | language _ | extended => true
  | _ => false

/-- Whether a region may follow. -/
def takesRegion : TagState → Bool
  | language _ | extended | script => true
  | _ => false

/-- Whether a variant may follow. -/
def takesVariant : TagState → Bool
  | language _ | extended | script | region => true
  | _ => false

/-- What may follow a subtag that is neither private nor part of an extension. -/
def afterPlain? (state : TagState) (subtag : List Char) : Option TagState :=
  let letters := subtag.all Char.isAlpha
  let size := subtag.length
  match state, size == 3 && letters with
  | language (n + 1), true => some (language n)
  | state, _ =>
    if state.takesScript && size == 4 && letters then some script
    else if state.takesRegion && (size == 2 && letters || size == 3 && subtag.all Char.isDigit) then
      some region
    else if state.takesVariant && (5 ≤ size || size == 4 && subtag.head?.any Char.isDigit) then
      some region
    else none

/-- What may follow one more subtag. -/
def after? (state : TagState) (subtag : List Char) : Option TagState :=
  match state with
  | privateUse _ => some (privateUse true)
  | state =>
    if subtag.length == 1 then
      if !state.mayEnd then none
      else if subtag == ['x'] then some (privateUse false)
      else some (extension false)
    else
      match state with
      | extension _ => some (extension true)
      | state => state.afterPlain? subtag

end TagState

/-- What may follow a language, which has at least two letters. Short ones can be extended. -/
def afterLanguage? (subtag : List Char) : Option TagState :=
  if 2 ≤ subtag.length && subtag.all Char.isAlpha then
    some (if subtag.length < 4 then .language 3 else .extended)
  else none

/-- Tags from before the rules. -/
def irregularTags : List String :=
  ["art-lojban", "cel-gaulish", "en-gb-oed", "i-ami", "i-bnn", "i-default", "i-enochian", "i-hak",
    "i-klingon", "i-lux", "i-mingo", "i-navajo", "i-pwn", "i-tao", "i-tay", "i-tsu", "no-bok",
    "no-nyn", "sgn-be-fr", "sgn-be-nl", "sgn-ch-de", "zh-guoyu", "zh-hakka", "zh-min",
    "zh-min-nan", "zh-xiang"]

/-- Whether a text of ASCII letters, digits and hyphens is put together as a tag must be: from
subtags of at most eight characters in a certain order, or all private, or from before the rules. -/
def isLanguageTag (s : List Char) : Bool :=
  let tag := lowerTag s
  let subtags := Text.segments '-' tag
  irregularTags.contains (String.ofList tag) ||
    subtags.all (fun t => !t.isEmpty && t.length ≤ 8) &&
      match subtags with
      | ['x'] :: rest => !rest.isEmpty
      | first :: rest =>
        match (afterLanguage? first).bind (rest.foldlM TagState.after?) with
        | some state => state.mayEnd
        | none => false
      | [] => false

end Rdf

end Thesaurus
