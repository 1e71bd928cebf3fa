import Papyrus.Settings
import Papyrus.Toml.Reader
/-!
# Settings from a configuration file

A configuration is a TOML table. Keys that are missing leave a setting at its default, and keys that
are not known do not count. A value must be of the right kind. The groups of settings, which are the
word lists and each profile, may also be written as arrays, their values in the order of the keys.

Results:
* `ofTable_nil`: a configuration without keys is the default one.
-/
namespace Papyrus

open Toml (Value Table)

/-- The key of a word list in a configuration. -/
def WordRole.key : WordRole → String
  | .operators => "operators"
  | .flowControl => "flow_control"
  | .types => "types"
  | .keywords => "keywords"
  | .keywordsAlt => "keywords_alt"
  | .foldOpen => "fold_open"
  | .foldMiddle => "fold_middle"
  | .foldClose => "fold_close"

namespace Settings

/-- Reads the value of a key, or takes the default if the key is missing. -/
def field {α : Type} (t : Table) (key : String) (decode : Value → Except ConfigurationError α)
    (default : α) : Except ConfigurationError α :=
  match t.lookup key with
  | none => .ok default
  | some v => decode v

def decodeBool (key : String) : Value → Except ConfigurationError Bool
  | .boolean b => .ok b
  | _ => .error (.unexpectedValue key)

/-- An indicator is a number of 32 bits. -/
def decodeIndicator (key : String) : Value → Except ConfigurationError UInt32
  | .integer n =>
    if 0 ≤ n ∧ n.toNat < UInt32.size then .ok (UInt32.ofNat n.toNat)
    else .error (.unexpectedValue key)
  | _ => .error (.unexpectedValue key)

def decodeString (key : String) : Value → Except ConfigurationError String
  | .string s => .ok s
  | _ => .error (.unexpectedValue key)

def decodeArray {α : Type} (key : String) (item : Value → Except ConfigurationError α) :
    Value → Except ConfigurationError (List α)
  | .array vs => vs.mapM item
  | _ => .error (.unexpectedValue key)

/-- Pairs the values of an array with the keys that they stand for. -/
def ofArray (keys : List String) (vs : List Value) : Table := keys.zip vs

/-- The words of each role that a table has. -/
def wordsOfTable (t : Table) : Except ConfigurationError (PerRole (Option String)) := do
  let read (role : WordRole) : Except ConfigurationError (Option String) :=
    field t role.key (fun v => (decodeString role.key v).map some) none
  let operators ← read .operators
  let flowControl ← read .flowControl
  let types ← read .types
  let keywords ← read .keywords
  let keywordsAlt ← read .keywordsAlt
  let foldOpen ← read .foldOpen
  let foldMiddle ← read .foldMiddle
  let foldClose ← read .foldClose
  return ⟨operators, flowControl, types, keywords, keywordsAlt, foldOpen, foldMiddle, foldClose⟩

/-- A date, too, counts as a group of word lists, without any. -/
def decodeWords : Value → Except ConfigurationError (PerRole (Option String))
  | .table t => wordsOfTable t
  | .array vs => wordsOfTable (ofArray (WordRole.all.map WordRole.key) vs)
  | .dateTime _ => wordsOfTable []
  | _ => .error (.unexpectedValue "words")

/-- A profile needs a name. -/
def profileOfTable (t : Table) : Except ConfigurationError Profile := do
  match t.lookup "name" with
  | none => .error (.missing "name")
  | some v =>
    let name ← decodeString "name" v
    let importDirs ←
      field t "import_dirs" (decodeArray "import_dirs" (decodeString "import_dirs")) []
    return ⟨name, importDirs⟩

def decodeProfile : Value → Except ConfigurationError Profile
  | .table t => profileOfTable t
  | .array vs => profileOfTable (ofArray ["name", "import_dirs"] vs)
  | _ => .error (.unexpectedValue "profiles")

/-- The settings of a configuration. -/
def ofTable (t : Table) : Except ConfigurationError Settings := do
  let defaults : Settings := {}
  let foldMiddle ← field t "fold_middle" (decodeBool "fold_middle") defaults.foldMiddle
  let classCache ← field t "class_cache" (decodeBool "class_cache") defaults.classCache
  let keywordMatching ←
    field t "keyword_matching" (decodeBool "keyword_matching") defaults.keywordMatching
  let matchedIndicator ←
    field t "matched_indicator" (decodeIndicator "matched_indicator") defaults.matchedIndicator
  let unmatchedIndicator ←
    field t "unmatched_indicator" (decodeIndicator "unmatched_indicator")
      defaults.unmatchedIndicator
  let activeProfile ←
    field t "active_profile" (fun v => (decodeString "active_profile" v).map some)
      defaults.activeProfile
  let words ← field t "words" decodeWords defaults.words
  let profiles ← field t "profiles" (decodeArray "profiles" decodeProfile) defaults.profiles
  return ⟨foldMiddle, classCache, keywordMatching, matchedIndicator, unmatchedIndicator,
    activeProfile, words, profiles⟩

/-- The settings of a configuration file. -/
def ofText (text : Text) : Except ConfigurationError Settings :=
  match Toml.read? text with
  | none => .error .malformed
  | some t => ofTable t

theorem ofTable_nil : ofTable [] = .ok {} := rfl

end Settings

end Papyrus
