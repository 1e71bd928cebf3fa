import Papyrus.Error
import Papyrus.ScriptClass
import Papyrus.WordList
/-!
# Settings

What a user can configure: folding, caching and highlighting, the word lists and the profiles with
their directories of scripts.

Results:
* `profile?_selectProfile`: the profile that has been selected is the active one.
-/
namespace Papyrus

/-- The settings of a lexer. -/
structure Settings where
  /-- Whether a line with a lone middle word is a fold header. -/
  foldMiddle : Bool := false
  /-- Whether it is remembered which names are classes. -/
  classCache : Bool := true
  /-- Whether block keywords are matched and highlighted. -/
  keywordMatching : Bool := true
  /-- The indicator of a match that was found. -/
  matchedIndicator : UInt32 := 8
  /-- The indicator of a match that was not found. -/
  unmatchedIndicator : UInt32 := 9
  /-- The name of the profile whose scripts are classes. -/
  activeProfile : Option String := none
  /-- The words of each role, where they are not the standard ones. -/
  words : PerRole (Option String) := PerRole.ofFn fun _ => none
  profiles : List Profile := []
  deriving DecidableEq, Repr, Inhabited

namespace Settings

/-- The word lists that are in effect. -/
def wordLists (s : Settings) : WordLists :=
  PerRole.ofFn fun role => WordList.ofString ((s.words.get role).getD role.standardWords)

/-- The active profile, if one is named and there is one of this name. -/
def profile? (s : Settings) : Option Profile :=
  s.activeProfile.bind fun name => s.profiles.find? (·.name == name)

/-- Makes the profile of a name the active one. -/
def selectProfile (s : Settings) (name : String) : Except Error Settings :=
  if s.profiles.any (·.name == name) then .ok { s with activeProfile := some name }
  else .error (.unknownProfile name)

theorem profile?_selectProfile {s t : Settings} {name : String}
    (h : s.selectProfile name = .ok t) : t.profile?.map Profile.name = some name := by
  unfold selectProfile at h
  split at h
  · next ha =>
    obtain rfl := Except.ok.inj h
    obtain ⟨p, hp⟩ := Option.isSome_iff_exists.1 (List.find?_isSome.2 (List.any_eq_true.1 ha))
    have := List.find?_some hp
    simpa [profile?, hp] using this
  · cases h

end Settings

end Papyrus
