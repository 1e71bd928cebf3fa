import Papyrus.Lexer.Basic
/-!
# Changing a setting

A user changes one setting at a time; `Lexer.apply` takes it over and says what has to be done anew.

Results:
* `words_apply`: the word lists in use are those of the settings, before and after.
-/
namespace Papyrus

/-- A change of one setting. -/
inductive SettingChange where
  | foldMiddle (on : Bool)
  | classCache (on : Bool)
  | keywordMatching (on : Bool)
  | matchedIndicator (id : UInt32)
  | unmatchedIndicator (id : UInt32)
  | activeProfile (name : Option String)
  | profiles (profiles : List Profile)
  /-- The words of a role; none for the standard ones. -/
  | words (role : WordRole) (words : Option String)
  deriving DecidableEq, Repr

/-- What has to be done anew after a change. -/
inductive Refresh where
  | nothing
  | styles
  | folds
  | highlights
  deriving DecidableEq, Repr

/-- Whether the words of a role are for folding only. -/
def WordRole.isFolding : WordRole → Bool
  | .foldOpen | .foldMiddle | .foldClose => true
  | _ => false

namespace Lexer

/-- Takes a changed setting over. -/
def apply (x : Lexer) : SettingChange → Except Error (Refresh × Lexer)
  | .foldMiddle on => .ok (.folds, { x with settings := { x.settings with foldMiddle := on } })
  | .classCache on =>
    .ok (.nothing,
      { x with
        settings := { x.settings with classCache := on }
        classes := x.classes.setCaching on })
  | .keywordMatching on =>
    .ok (.highlights, { x with settings := { x.settings with keywordMatching := on } })
  | .matchedIndicator id =>
    .ok (.highlights, { x with settings := { x.settings with matchedIndicator := id } })
  | .unmatchedIndicator id =>
    .ok (.highlights, { x with settings := { x.settings with unmatchedIndicator := id } })
  | .activeProfile (some name) => do
    let settings ← x.settings.selectProfile name
    return (.styles, { x with settings := settings, classes := x.classes.clear })
  | .activeProfile none =>
    .ok (.styles,
      { x with
        settings := { x.settings with activeProfile := none }
        classes := x.classes.clear })
  | .profiles profiles =>
    .ok (.styles,
      { x with
        settings := { x.settings with profiles := profiles }
        classes := x.classes.clear })
  | .words role words =>
    let list := WordList.ofString (words.getD role.standardWords)
    .ok (if role.isFolding then .folds else .styles,
      { x with
        settings := { x.settings with words := x.settings.words.set role words }
        words := x.words.set role list })

/-- Another active profile, if it is accepted. -/
theorem apply_activeProfile {x y : Lexer} {name? : Option String} {refresh : Refresh}
    (h : x.apply (.activeProfile name?) = .ok (refresh, y)) :
    refresh = .styles ∧
      y = { x with
        settings := { x.settings with activeProfile := name? }
        classes := x.classes.clear } := by
  cases name? with
  | none =>
    obtain ⟨rfl, rfl⟩ := Prod.mk.inj (Except.ok.inj h)
    exact ⟨rfl, rfl⟩
  | some name =>
    simp only [apply, Settings.selectProfile] at h
    split at h
    · obtain ⟨rfl, rfl⟩ := Prod.mk.inj (Except.ok.inj h)
      exact ⟨rfl, rfl⟩
    · cases h

theorem wordLists_set (s : Settings) (role : WordRole) (words : Option String) :
    Settings.wordLists { s with words := s.words.set role words } =
      s.wordLists.set role (WordList.ofString (words.getD role.standardWords)) := by
  apply PerRole.ext_get
  intro other
  simp only [Settings.wordLists, PerRole.get_set, PerRole.get_ofFn]
  split
  · next h => rw [h]
  · rfl

theorem words_apply {x y : Lexer} {change : SettingChange} {refresh : Refresh}
    (hx : x.words = x.settings.wordLists) (h : x.apply change = .ok (refresh, y)) :
    y.words = y.settings.wordLists := by
  cases change with
  | words role words =>
    obtain ⟨-, rfl⟩ := Prod.mk.inj (Except.ok.inj h)
    simp only [wordLists_set, hx]
  | activeProfile name? => obtain ⟨-, rfl⟩ := apply_activeProfile h; exact hx
  | _ => obtain ⟨-, rfl⟩ := Prod.mk.inj (Except.ok.inj h); exact hx

end Lexer

end Papyrus
